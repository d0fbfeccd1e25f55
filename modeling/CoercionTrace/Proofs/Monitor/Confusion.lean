import CoercionTrace.Proofs.Monitor.Identity

/-!
# Identities that several monitors give

An object keeps the mark that a monitor gave it when that monitor is gone, and the next monitor
counts from the beginning again. Main statement: a monitor confuses two objects, or an object and a
call, if and only if one of them was marked by another monitor than the other (`confuses_iff`).
-/

namespace CoercionTrace

variable {σ : Type} {m m' : MonitorId} {forged : ObjectId → Prop}

namespace World

variable {w u u' v : World σ} {log log' : List Given} {id : ObjectId} {i k : TraceId}

inductive Asks (m : MonitorId) (id : ObjectId) (w : World σ) : TraceId → World σ → Prop
  | identity : Asks m id w (w.identify m id).1 (w.identify m id).2
  | key {trace : TraceId} {slot : Value} {traced : Slot} {u : World σ} :
      (w.monitor m).handle ≠ some id →
      w.traceKey m { scope := .object id, slot } = (.of trace traced, u) → Asks m id w trace u

theorem Asks.eq (h : Asks m id w i u) : i = (w.identify m id).1 ∧ u = (w.identify m id).2 := by
  cases h with
  | identity => exact ⟨rfl, rfl⟩
  | key hne hkey =>
    rw [traceKey_of_object hne] at hkey
    cases hkey
    exact ⟨rfl, rfl⟩

/-- The log leads from one world to another, newest entry first. Whatever leaves the marks alone may
happen in between; the program may do what it likes to the marks that it forges. -/
inductive Passes (forged : ObjectId → Prop) (w : World σ) : List Given → World σ → Prop
  | refl : Passes forged w [] w
  | elsewhere {log : List Given} {u u' : World σ} : Passes forged w log u →
      SparesMarks (fun _ => True) forged u u' → Passes forged w log u'
  | marked {log : List Given} {u u' : World σ} {m : MonitorId} {id : ObjectId} {trace : TraceId} :
      Passes forged w log u → m < u.monitors.size → id < u.heap.size → ¬ forged id →
      id ≠ u.globalOf m → u.mark? id = none → Asks m id u trace u' →
      Passes forged w (.answer m id trace :: .mark m id trace :: log) u'
  | answered {log : List Given} {u u' : World σ} {m : MonitorId} {id : ObjectId} {trace : TraceId} :
      Passes forged w log u → m < u.monitors.size →
      forged id ∨ id = u.globalOf m ∨ u.mark? id ≠ none → Asks m id u trace u' →
      Passes forged w (.answer m id trace :: log) u'
  | entered {log : List Given} {u u' : World σ} {m : MonitorId} {callId : TraceId}
      {parameters : List (Option String)} {captured : List String} : Passes forged w log u →
      m < u.monitors.size → Yields (Monitor.enterCall m parameters captured) u callId u' →
      Passes forged w (.frame m callId :: log) u'
  | token {log : List Given} {u : World σ} {m : MonitorId} {callId : TraceId} :
      Passes forged w log u → .frame m callId ∈ log →
      Passes forged w (.token (u.alloc (scopeToken callId)).1 callId :: log)
        (u.alloc (scopeToken callId)).2

theorem Passes.trans (h : Passes forged w log u) (h' : Passes forged u log' v) :
    Passes forged w (log' ++ log) v := by
  induction h' with
  | refl => exact h
  | elsewhere _ hs ih => exact ih.elsewhere hs
  | marked _ hm hid hgenuine hne hnone hasks ih =>
    exact ih.marked hm hid hgenuine hne hnone hasks
  | answered _ hm hid hasks ih => exact ih.answered hm hid hasks
  | entered _ hm hy ih => exact ih.entered hm hy
  | token _ hmem ih => exact ih.token (List.mem_append_left _ hmem)

theorem Passes.genuine (hw : w.Genuine forged) (h : Passes forged w log u) : u.Genuine forged := by
  have hspares : ∀ {u u' : World σ}, u.Genuine forged → SparesMarks (fun _ => True) forged u u' →
      u'.Genuine forged := fun hgenuine hs => hgenuine.spares hs
  induction h with
  | refl => exact hw
  | elsewhere _ hs ih => exact hspares ih hs
  | marked _ hm hid _ hne hnone hasks ih =>
    obtain ⟨-, hmarks⟩ := identify_of_unmarked hm hid hne hnone
    rw [hasks.eq.2]
    exact genuine_of_mark ih hmarks.mark hmarks.others
  | answered _ hm hknown hasks ih =>
    rw [hasks.eq.2]
    exact hspares ih (sparesMarks_identify_of_known ih hknown)
  | entered _ _ hy ih => exact hspares ih (sparesMarks_of_enterCall hy)
  | token _ _ ih =>
    exact genuine_of_mark ih ((mark?_alloc_self _ _).trans (property?_scopeToken _))
      fun id' hid' => mark?_alloc_of_ne _ hid'

/-- There is a log that leads on from where there are `n` monitors and no mark is anything but a
number, unless it is forged. -/
def PassesOn (forged : ObjectId → Prop) (n : Nat) (w w' : World σ) : Prop :=
  n ≤ w.monitors.size → w.Genuine forged →
    n ≤ w'.monitors.size ∧ ∃ log, Passes forged w log w'

variable {n : Nat}

instance : IsPreorder (World σ) (PassesOn forged n) where
  refl _ hn _ := ⟨hn, [], .refl⟩
  trans _ _ _ h h' hn hw := by
    obtain ⟨hn, log, hlog⟩ := h hn hw
    obtain ⟨hn', log', hlog'⟩ := h' hn (hlog.genuine hw)
    exact ⟨hn', log' ++ log, hlog.trans hlog'⟩

theorem SparesMarks.monitors (h : SparesMarks (fun _ => True) forged w u) :
    w.monitors.size ≤ u.monitors.size :=
  Nat.le_of_not_lt fun hlt => Nat.lt_irrefl _ (h.present _ trivial hlt)

theorem passesOn_of_spares (h : w.Genuine forged → SparesMarks (fun _ => True) forged w u) :
    PassesOn forged n w u :=
  fun hn hw => ⟨Nat.le_trans hn (h hw).monitors, [], .elsewhere .refl (h hw)⟩

theorem SparesMarks.passesOn (h : SparesMarks (fun _ => True) forged w u) : PassesOn forged n w u :=
  passesOn_of_spares fun _ => h

theorem passesOn_identify (hm : m < n) (w : World σ) (id : ObjectId) :
    PassesOn forged n w (w.identify m id).2 := by
  intro hn _
  have hm : m < w.monitors.size := Nat.lt_of_lt_of_le hm hn
  refine ⟨(size_identify w m id).symm ▸ hn, ?_⟩
  rcases Nat.lt_or_ge id w.heap.size with hid | hid
  · by_cases hknown : forged id ∨ id = w.globalOf m ∨ w.mark? id ≠ none
    · exact ⟨_, .answered .refl hm hknown .identity⟩
    · rw [not_or, not_or, not_not] at hknown
      obtain ⟨hgenuine, hne, hnone⟩ := hknown
      exact ⟨_, .marked .refl hm hid hgenuine hne hnone .identity⟩
  · exact ⟨[], .elsewhere .refl (sparesMarks_identify (heap_identify_of_dangling hid))⟩

theorem handles_passesOn (hm : m < n) : Handles m (PassesOn (σ := σ) forged n) where
  reported _ _ _ _ := SparesMarks.passesOn
    ⟨fun _ _ hm => hm, fun _ _ => Nat.le_refl _, fun _ _ _ => rfl, Nat.le_refl _, fun _ _ => rfl⟩
  identify := passesOn_identify hm
  calling w f arguments := (sparesMarks_calling w m f arguments).passesOn
  called _ := (sparesMarks_onTracer (Nat.le_refl _)).passesOn

theorem passesOn_onTracer (w : World σ) (t' : Tracer)
    (h : (w.monitor m).tracer.nextId ≤ t'.nextId) :
    PassesOn forged n w (w.onTracer m fun _ => t') := (sparesMarks_onTracer h).passesOn

theorem passesOn_enterCall (hm : m < n) (parameters : List (Option String)) (captured : List String)
    (w : World σ) : Leads (PassesOn forged n) (Monitor.enterCall m parameters captured) w := by
  refine Monitor.enterCall_leads_of_tracer passesOn_onTracer parameters captured
    fun callId w' hy hn _ => ⟨?_, _, .entered .refl (Nat.lt_of_lt_of_le hm hn) hy⟩
  have hs : SparesMarks (fun _ => True) forged w w' := sparesMarks_of_enterCall hy
  exact Nat.le_trans hn hs.monitors

theorem Asks.next_le (h : Asks m id u i u') (m' : MonitorId) : u.nextId m' ≤ u'.nextId m' := by
  rw [h.eq.2]
  exact next_le_identify u m id m'

theorem Passes.passed (hw : Passed (fun _ => True) forged [] w) (h : Passes forged w log u)
    (hlimit : ∀ m, u.nextId m ≤ 2 ^ 53 + 1) : Passed (fun _ => True) forged log u := by
  induction h with
  | refl => exact hw
  | elsewhere _ hs ih =>
    exact (ih fun m => Nat.le_trans (hs.next m trivial) (hlimit m)).spares hs
  | @marked log u u' m id trace _ hm hid hgenuine hne hnone hasks ih =>
    have h := ih fun m => Nat.le_trans (hasks.next_le m) (hlimit m)
    obtain ⟨rfl, rfl⟩ := hasks.eq
    exact h.marked trivial hm hid hgenuine hne hnone (hlimit m)
  | @answered log u u' m id trace _ hm hknown hasks ih =>
    have h := ih fun m => Nat.le_trans (hasks.next_le m) (hlimit m)
    obtain ⟨rfl, rfl⟩ := hasks.eq
    exact h.answered trivial hm hknown
  | @entered log u u' m callId parameters captured _ hm hy ih =>
    have hs : SparesMarks (fun _ => True) forged u u' := sparesMarks_of_enterCall hy
    exact (ih fun m => Nat.le_trans (hs.next m trivial) (hlimit m)).entered trivial hm hy
  | token _ hmem ih =>
    have h := ih hlimit
    refine h.token hmem (Nat.le_of_lt_succ ?_)
    exact Nat.lt_of_lt_of_le (h.frames _ _ hmem).2.2 (hlimit _)

structure Proper (forged : ObjectId → Prop) (log : List Given) (id : ObjectId) : Prop where
  genuine : ¬ forged id
  noToken : ¬ StandsForCall log id

/-- A monitor answers with one identity for two objects, or with that of one of its own calls for an
object. -/
def Confuses (forged : ObjectId → Prop) (m : MonitorId) (log : List Given) : Prop :=
  (∃ id id' i, id ≠ id' ∧ Proper forged log id ∧ Proper forged log id' ∧
    .answer m id i ∈ log ∧ .answer m id' i ∈ log) ∨
  ∃ id i, Proper forged log id ∧ .answer m id i ∈ log ∧
    (i = globalTraceId + 1 ∨ .frame m i ∈ log)

/-- An object that another monitor marked has the identity of a call, or of an object that was marked
by a third monitor or by the one that is asked. -/
def Clashes (m : MonitorId) (log : List Given) : Prop :=
  ∃ other id i, other ≠ m ∧ .mark other id i ∈ log ∧ .answer m id i ∈ log ∧
    (.frame m i ∈ log ∨ ∃ third id', third ≠ other ∧ .mark third id' i ∈ log ∧
      .answer m id' i ∈ log)

namespace Passed

theorem confuses_iff_clashes (h : Passed (fun _ => True) forged log u) (m : MonitorId) :
    Confuses forged m log ↔ Clashes m log := by
  constructor
  · rintro (⟨id, id', i, hne, hid, hid', hmem, hmem'⟩ | ⟨id, i, hid, hmem, hcall⟩)
    · have hi : i ≠ globalTraceId := by
        rintro rfl
        exact hne ((h.eq_global_of_answer hid.genuine hmem).trans
          (h.eq_global_of_answer hid'.genuine hmem').symm)
      obtain ⟨m₁, hmark⟩ := h.marked_of_answer hmem hi hid.genuine hid.noToken
      obtain ⟨m₂, hmark'⟩ := h.marked_of_answer hmem' hi hid'.genuine hid'.noToken
      have howners : m₂ ≠ m₁ := by
        rintro rfl
        exact hne (h.unique _ _ _ _ _ _ hmark hmark' (.inr ⟨rfl, rfl⟩)).2
      by_cases hm : m₁ = m
      · exact ⟨m₂, id', i, hm ▸ howners, hmark', hmem', .inr ⟨m₁, id, howners.symm, hmark, hmem⟩⟩
      · exact ⟨m₁, id, i, hm, hmark, hmem, .inr ⟨m₂, id', howners, hmark', hmem'⟩⟩
    · have hi : i ≠ globalTraceId := by
        rintro rfl
        rcases hcall with hcall | hcall
        · exact absurd hcall (by decide)
        · exact absurd (h.frames m _ hcall).2.1 (by decide)
      obtain ⟨m', hmark⟩ := h.marked_of_answer hmem hi hid.genuine hid.noToken
      have hframe : .frame m i ∈ log := hcall.resolve_left fun hbottom =>
        Nat.lt_irrefl _ (hbottom ▸ (h.marks m' id i hmark).2.2.2.1)
      have hm : m' ≠ m := by
        rintro rfl
        exact h.apart m' id i hmark hframe
      exact ⟨m', id, i, hm, hmark, hmem, .inl hframe⟩
  · have hobject : ∀ {m id i}, .mark m id i ∈ log → Proper forged log id := fun hmark =>
      ⟨(h.marks _ _ _ hmark).2.1, fun ⟨k, htoken⟩ => (h.tokens _ k htoken).2.2 _ _ hmark⟩
    rintro ⟨other, id, i, hother, hmark, hmem, hframe | ⟨third, id', hthird, hmark', hmem'⟩⟩
    · exact .inr ⟨id, i, hobject hmark, hmem, .inr hframe⟩
    · refine .inl ⟨id, id', i, ?_, hobject hmark, hobject hmark', hmem, hmem'⟩
      rintro rfl
      exact hthird (h.unique _ _ _ _ _ _ hmark' hmark (.inl rfl)).1

end Passed

theorem passed_start (hunmarked : ∀ id, ¬ forged id → w.mark? id = none) (hw : w.monitors = #[]) :
    Passed (fun _ => True) forged [] w := by
  refine .empty (fun m _ => ?_) hunmarked
  rw [nextId, monitor_of_absent (by simp [hw])]
  exact Nat.lt_succ_self _

/-- Monitors that are made one after another, or side by side, for a program whose objects have no
marks but such as it forges itself. All of them know an object by the same identity, as long as
identities are numbers. One of them confuses two objects, or an object and a call, if and only if it
is asked for an object that another one marked whose identity it answers for something else, too.
Whatever is done to monitors and by them is in a log. -/
theorem confuses_iff (hunmarked : ∀ id, ¬ forged id → w.mark? id = none) (hw : w.monitors = #[]) :
    (∀ log u, Passes forged w log u → (∀ m, u.allocated m < 2 ^ 53) →
      (∀ m, Confuses forged m log ↔ Clashes m log) ∧
      ∀ m m' id i j, ¬ forged id → .answer m id i ∈ log → .answer m' id j ∈ log →
        id ≠ u.globalOf m → id ≠ u.globalOf m' → i = j) ∧
    ∀ (n : Nat) (m : MonitorId) (call : Call σ), m < n →
      Monitor.CallLeads (PassesOn forged n) call →
      ∀ u : World σ, (∀ r checks, PassesOn forged n u (u.newMonitor r checks).2) ∧
        (∀ r checks, PassesOn forged n u (u.init r checks).2) ∧
        PassesOn forged n u (u.hold m) ∧ PassesOn forged n u (u.release m) ∧
        PassesOn forged n u (u.teardown m) ∧ PassesOn forged n u u.teardownCurrent ∧
        PassesOn forged n u (u.handle m).2 ∧
        (∀ id, PassesOn forged n u (u.identify m id).2) ∧
        (∀ key, PassesOn forged n u (u.traceKey m key).2) ∧
        (∀ value target source,
          Leads (PassesOn forged n) (Monitor.assign m value target source) u) ∧
        (∀ parameters captured,
          Leads (PassesOn forged n) (Monitor.enterCall m parameters captured) u) ∧
        Leads (PassesOn forged n) (Monitor.leaveCall m) u ∧
        (∀ result left right operator location, Leads (PassesOn forged n)
          (Monitor.arithmeticCheck call m result left right operator location) u) ∧
        (∀ callee receiver arguments text location, Leads (PassesOn forged n)
          (Monitor.callCheck call m callee receiver arguments text location) u) ∧
        ∀ key target, Leads (PassesOn forged n) (Monitor.searchCheck call m key target) u := by
  constructor
  · intro log u h hlimit
    have hnext : ∀ m, u.nextId m ≤ 2 ^ 53 - 1 + (globalTraceId + 1) := fun m =>
      Nat.sub_le_iff_le_add.1 (Nat.le_sub_one_of_lt (hlimit m))
    have hpassed := h.passed (passed_start hunmarked hw) hnext
    refine ⟨hpassed.confuses_iff_clashes, fun m m' id i j hid hi hj hne hne' => ?_⟩
    have hi := ((hpassed.answers m id i hi).2.2 hid).resolve_left fun h => hne h.1
    have hj := ((hpassed.answers m' id j hj).2.2 hid).resolve_left fun h => hne' h.1
    exact Option.some.inj (hi.2.symm.trans hj.2)
  · -- whatever a monitor does either spares the marks, asks for an identity or enters a call
    intro n m call hm hcall u
    exact ⟨fun r checks => (sparesMarks_newMonitor u r checks).passesOn,
      fun r checks => passesOn_of_spares fun h => sparesMarks_init h r checks,
      (sparesMarks_hold u m).passesOn, (sparesMarks_release u m).passesOn,
      passesOn_of_spares fun h => sparesMarks_teardown h m,
      passesOn_of_spares sparesMarks_teardownCurrent, (sparesMarks_handle u m).passesOn,
      passesOn_identify hm u, leads_traceKey (passesOn_identify hm) u,
      fun _ _ _ => Monitor.assign_leads_of_tracer (passesOn_identify hm) passesOn_onTracer _ _ _ u,
      fun _ _ => passesOn_enterCall hm _ _ u,
      Monitor.leaveCall_leads_of_tracer passesOn_onTracer u,
      fun _ _ _ _ _ => Monitor.arithmeticCheck_leads (handles_passesOn hm) hcall _ _ _ _ _ u,
      fun _ _ _ _ _ => Monitor.callCheck_leads (handles_passesOn hm) hcall _ _ _ _ _ u,
      fun _ _ => Monitor.searchCheck_leads hcall _ _ u⟩

/-- The current monitor marks an object. The next one marks another object with the same number, and
then is asked for the first. -/
def replaced : World Unit :=
  let first := ((withChild.init 0 {}).2.identify 0 1).2
  (((first.init 0 {}).2.identify 1 2).2.identify 1 1).2

theorem allocated_replaced (m : MonitorId) : replaced.allocated m < 2 ^ 53 := by
  have hsize : replaced.monitors.size = 2 := by decide +kernel
  by_cases hm : m < 2
  · have hall : ∀ m < 2, replaced.allocated m < 2 ^ 53 := by decide +kernel
    exact hall m hm
  · rw [allocated, nextId, monitor_of_absent (hsize.symm ▸ hm)]
    decide

theorem confuses_iff_replaced :
    (∀ id, ¬ False → withChild.mark? id = none) ∧ withChild.monitors = #[] ∧
      ∃ log, Passes (fun _ => False) withChild log replaced ∧
        (∀ m, replaced.allocated m < 2 ^ 53) ∧
        log = [.answer 1 1 3, .answer 1 2 3, .mark 1 2 3, .answer 0 1 3, .mark 0 1 3] ∧
        Confuses (fun _ => False) 1 log := by
  have hunmarked : ∀ id, ¬ False → withChild.mark? id = none
    | 0, _ | 1, _ | 2, _ => rfl
    | n + 3, _ => mark?_of_size_le (Nat.le_add_left 3 n)
  have hgenuine : withChild.Genuine fun _ => False := fun id hid hmark =>
    absurd (hunmarked id hid) hmark
  let first := ((withChild.init 0 {}).2.identify 0 1).2
  let second := ((first.init 0 {}).2.identify 1 2).2
  have hinit : Passes (fun _ => False) withChild [] _ :=
    .elsewhere .refl (sparesMarks_init hgenuine 0 {})
  have hfirst : Passes (fun _ => False) withChild _ first := hinit.marked (by decide +kernel)
    (by decide +kernel) not_false (by decide +kernel) (by decide +kernel) .identity
  have hinit' := hfirst.elsewhere (sparesMarks_init (hfirst.genuine hgenuine) 0 {})
  have hsecond : Passes (fun _ => False) withChild _ second := hinit'.marked (by decide +kernel)
    (by decide +kernel) not_false (by decide +kernel) (by decide +kernel) .identity
  have h : Passes (fun _ => False) withChild _ replaced :=
    hsecond.answered (by decide +kernel) (.inr (.inr (by decide +kernel))) .identity
  refine ⟨hunmarked, rfl, _, h, allocated_replaced, by decide +kernel, ?_⟩
  exact (((confuses_iff hunmarked rfl).1 _ _ h allocated_replaced).1 1).2
    ⟨0, 1, 3, by decide, by decide +kernel, by decide +kernel,
      .inr ⟨1, 2, by decide, by decide +kernel, by decide +kernel⟩⟩

end World

end CoercionTrace
