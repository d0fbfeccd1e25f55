import CoercionTrace.Proofs.Monitor.Given

/-!
# Identities of objects and calls

A log of the identities that a monitor answers with. The marks in the heap and one counter are behind
them: the log is part of one of all that the monitor gives (`Deals.told`). Main statement: the answers
are consistent, as long as every identity that was given is a number (`identities_consistent`).
-/

namespace CoercionTrace

variable {σ : Type} {m : MonitorId}

inductive Told
  /-- The identity of an object, asked for or as the scope of a key. -/
  | object (id : ObjectId) (trace : TraceId)
  /-- The identity that a key has whose scope is the hook object. -/
  | hook (id : ObjectId) (trace : TraceId)
  | frame (callId : TraceId)
  | token (id : ObjectId) (callId : TraceId)
  deriving DecidableEq

def IsToken (log : List Told) (id : ObjectId) : Prop := ∃ callId, .token id callId ∈ log

namespace World

variable {w u u' : World σ} {log log' : List Told} {id : ObjectId} {i k : TraceId}

abbrev KeepsMarks (m : MonitorId) : World σ → World σ → Prop :=
  SparesMarks (fun m' => m' = m) fun _ => False

/-- The log leads from one world to another, newest entry first. Whatever leaves the marks alone may
happen in between. -/
inductive Deals (m : MonitorId) (w : World σ) : List Told → World σ → Prop
  | refl : Deals m w [] w
  | elsewhere {log : List Told} {u u' : World σ} : Deals m w log u → KeepsMarks m u u' →
      Deals m w log u'
  | identify {log : List Told} {u : World σ} {id : ObjectId} : Deals m w log u →
      id < u.heap.size → Deals m w (.object id (u.identify m id).1 :: log) (u.identify m id).2
  | key {log : List Told} {u u' : World σ} {id : ObjectId} {trace : TraceId} {slot : Value}
      {traced : Slot} : Deals m w log u → id < u.heap.size → (u.monitor m).handle ≠ some id →
      u.traceKey m { scope := .object id, slot } = (.of trace traced, u') →
      Deals m w (.object id trace :: log) u'
  | hook {log : List Told} {u u' : World σ} {id : ObjectId} {trace : TraceId} {slot : Value}
      {traced : Slot} : Deals m w log u → (u.monitor m).handle = some id →
      u.traceKey m { scope := .object id, slot } = (.of trace traced, u') →
      Deals m w (.hook id trace :: log) u'
  | enterCall {log : List Told} {u u' : World σ} {parameters : List (Option String)}
      {captured : List String} {callId : TraceId} : Deals m w log u →
      Yields (Monitor.enterCall m parameters captured) u callId u' →
      Deals m w (.frame callId :: log) u'
  | token {log : List Told} {u : World σ} {callId : TraceId} : Deals m w log u →
      .frame callId ∈ log → Deals m w (.token (u.alloc (scopeToken callId)).1 callId :: log)
        (u.alloc (scopeToken callId)).2

theorem Deals.trans {v : World σ} (h : Deals m w log u) (h' : Deals m u log' v) :
    Deals m w (log' ++ log) v := by
  induction h' with
  | refl => exact h
  | elsewhere _ hk ih => exact ih.elsewhere hk
  | identify _ hid ih => exact ih.identify hid
  | key _ hid hne hkey ih => exact ih.key hid hne hkey
  | hook _ hhandle hkey ih => exact ih.hook hhandle hkey
  | enterCall _ hy ih => exact ih.enterCall hy
  | token _ hmem ih => exact ih.token (List.mem_append_left _ hmem)

def DealsOn (m : MonitorId) (w w' : World σ) : Prop := ∃ log, Deals m w log w'

instance : IsPreorder (World σ) (DealsOn m) where
  refl _ := ⟨[], .refl⟩
  trans _ _ _ := fun ⟨_, h⟩ ⟨_, h'⟩ => ⟨_, h.trans h'⟩

theorem dealsOn_of_keepsMarks (h : KeepsMarks m w u) : DealsOn m w u := ⟨[], .elsewhere .refl h⟩

theorem dealsOn_identify (w : World σ) (id : ObjectId) : DealsOn m w (w.identify m id).2 := by
  rcases Nat.lt_or_ge id w.heap.size with hid | hid
  · exact ⟨_, .identify .refl hid⟩
  · exact dealsOn_of_keepsMarks (sparesMarks_identify (heap_identify_of_dangling hid))

theorem handles_dealsOn : Handles m (DealsOn (σ := σ) m) where
  reported _ _ _ _ := dealsOn_of_keepsMarks
    ⟨fun _ _ hm => hm, fun _ _ => Nat.le_refl _, fun _ _ _ => rfl, Nat.le_refl _, fun _ _ => rfl⟩
  identify := dealsOn_identify
  calling w f arguments := dealsOn_of_keepsMarks (sparesMarks_calling w m f arguments)
  called _ := dealsOn_of_keepsMarks (sparesMarks_onTracer (Nat.le_refl _))

end World

namespace Monitor

open World (DealsOn)

theorem dealsOn_onTracer (w : World σ) (t' : Tracer)
    (h : (w.monitor m).tracer.nextId ≤ t'.nextId) : DealsOn m w (w.onTracer m fun _ => t') :=
  World.dealsOn_of_keepsMarks (World.sparesMarks_onTracer h)

theorem assign_dealsOn (value : Value) (target source : RawKey) (w : World σ) :
    Leads (DealsOn m) (assign m value target source) w :=
  assign_leads_of_tracer World.dealsOn_identify dealsOn_onTracer value target source w

theorem enterCall_dealsOn (parameters : List (Option String)) (captured : List String)
    (w : World σ) : Leads (DealsOn m) (enterCall m parameters captured) w :=
  enterCall_leads_of_tracer dealsOn_onTracer parameters captured fun _ _ hy => ⟨_, .enterCall .refl hy⟩

theorem leaveCall_dealsOn (w : World σ) : Leads (DealsOn m) (leaveCall m) w :=
  leaveCall_leads_of_tracer dealsOn_onTracer w

end Monitor

namespace World

variable {w u u' : World σ} {log log' : List Told} {id : ObjectId} {i k : TraceId}
  {given : List Given}

structure Rooted (m : MonitorId) (u : World σ) : Prop where
  present : m < u.monitors.size
  exists_global : u.globalOf m < u.heap.size
  unmarked : u.mark? (u.globalOf m) = none

namespace Rooted

theorem keeps (h : Rooted m u) (hk : KeepsMarks m u u') : Rooted m u' := by
  have hglobal := hk.global m rfl h.present
  refine ⟨hk.present m rfl h.present, ?_, ?_⟩
  · rw [hglobal]
    exact Nat.lt_of_lt_of_le h.exists_global hk.heap
  · rw [hglobal, hk.marks _ not_false, h.unmarked]

theorem mark (h : Rooted m u) (hne : id ≠ u.globalOf m) (hm : MarksNext m id u u') : Rooted m u' := by
  refine ⟨hm.present, ?_, ?_⟩
  · rw [hm.global, hm.size]
    exact h.exists_global
  · rw [hm.global, hm.others _ (Ne.symm hne), h.unmarked]

theorem alloc (h : Rooted m u) (o : Object) : Rooted m (u.alloc o).2 := by
  refine ⟨h.present, Nat.lt_of_lt_of_le h.exists_global ?_, ?_⟩
  · simp [World.alloc, Heap.alloc, Heap.size]
  · exact (mark?_alloc_of_ne o (Nat.ne_of_lt h.exists_global)).trans h.unmarked

end Rooted

structure Tells (m : MonitorId) (given : List Given) (log : List Told) : Prop where
  objects : ∀ id i, .object id i ∈ log → .answer m id i ∈ given
  hooks : ∀ id i, .hook id i ∈ log → i = globalTraceId
  frames : ∀ k, .frame k ∈ log → .frame m k ∈ given
  tokens : ∀ id k, .token id k ∈ log ↔ .token id k ∈ given

namespace Tells

theorem isToken_iff (h : Tells m given log) : IsToken log id ↔ StandsForCall given id :=
  exists_congr (h.tokens id)

theorem object (h : Tells m given log) {given' : List Given} (hmem : .answer m id i ∈ given')
    (hsub : given ⊆ given') (htokens : ∀ id k, .token id k ∈ given' → .token id k ∈ given) :
    Tells m given' (.object id i :: log) := by
  refine ⟨fun id' i' hobject => ?_, by simpa using h.hooks, fun k hframe => ?_, fun id' k => ?_⟩
  · rcases List.mem_cons.1 hobject with heq | hobject
    · cases heq
      exact hmem
    · exact hsub (h.objects id' i' hobject)
  · exact hsub (h.frames k (by simpa using hframe))
  · rw [List.mem_cons, or_iff_right (by simp), h.tokens]
    exact ⟨fun htoken => hsub htoken, htokens id' k⟩

theorem hook (h : Tells m given log) (id : ObjectId) :
    Tells m given (.hook id globalTraceId :: log) := by
  refine ⟨by simpa using h.objects, fun id' i hmem => ?_, by simpa using h.frames,
    by simpa using h.tokens⟩
  rcases List.mem_cons.1 hmem with heq | hmem
  · cases heq
    rfl
  · exact h.hooks id' i hmem

theorem frame (h : Tells m given log) (k : TraceId) :
    Tells m (.frame m k :: given) (.frame k :: log) := by
  refine ⟨by simpa using h.objects, by simpa using h.hooks, fun k' hmem => ?_,
    by simpa using h.tokens⟩
  rcases List.mem_cons.1 hmem with heq | hmem
  · cases heq
    exact List.mem_cons_self
  · exact List.mem_cons_of_mem _ (h.frames k' hmem)

theorem token (h : Tells m given log) (id : ObjectId) (k : TraceId) :
    Tells m (.token id k :: given) (.token id k :: log) :=
  ⟨by simpa using h.objects, by simpa using h.hooks, by simpa using h.frames, by simp [h.tokens]⟩

end Tells

theorem Passed.asked (h : Passed (fun m' => m' = m) (fun _ => False) given u) (hroot : Rooted m u)
    (hid : id < u.heap.size) (hlimit : (u.identify m id).2.nextId m ≤ 2 ^ 53 + 1)
    (htells : Tells m given log) : Rooted m (u.identify m id).2 ∧ ∃ given',
      Passed (fun m' => m' = m) (fun _ => False) given' (u.identify m id).2 ∧
      Tells m given' (.object id (u.identify m id).1 :: log) := by
  by_cases hglobal : id = u.globalOf m
  · refine ⟨hroot.keeps (identify_of_global hglobal).2, _,
      h.answered rfl hroot.present (.inr (.inl hglobal)), ?_⟩
    exact htells.object List.mem_cons_self (List.subset_cons_self ..) (by simp)
  by_cases hnone : u.mark? id = none
  · refine ⟨hroot.mark hglobal (identify_of_unmarked hroot.present hid hglobal hnone).2, _,
      h.marked rfl hroot.present hid not_false hglobal hnone hlimit, ?_⟩
    refine htells.object List.mem_cons_self ?_ (by simp)
    exact List.subset_cons_of_subset _ (List.subset_cons_self ..)
  · obtain ⟨i, hi⟩ := Option.ne_none_iff_exists'.1 (h.genuine id not_false hnone)
    refine ⟨hroot.keeps (identify_of_marked hglobal hi).2, _,
      h.answered rfl hroot.present (.inr (.inr hnone)), ?_⟩
    exact htells.object List.mem_cons_self (List.subset_cons_self ..) (by simp)

theorem Deals.told (hroot : Rooted m w) (hw : Passed (fun m' => m' = m) (fun _ => False) [] w)
    (h : Deals m w log u) (hlimit : u.nextId m ≤ 2 ^ 53 + 1) : Rooted m u ∧ ∃ given,
      Passed (fun m' => m' = m) (fun _ => False) given u ∧ Tells m given log := by
  induction h with
  | refl => exact ⟨hroot, [], hw, by constructor <;> simp⟩
  | elsewhere _ hk ih =>
    obtain ⟨hroot, given, hpassed, htells⟩ := ih (Nat.le_trans (hk.next m rfl) hlimit)
    exact ⟨hroot.keeps hk, given, hpassed.spares hk, htells⟩
  | identify _ hid ih =>
    obtain ⟨hroot, given, hpassed, htells⟩ := ih (Nat.le_trans (next_le_identify ..) hlimit)
    exact hpassed.asked hroot hid hlimit htells
  | key _ hid hne hkey ih =>
    rw [traceKey_of_object hne] at hkey
    cases hkey
    obtain ⟨hroot, given, hpassed, htells⟩ := ih (Nat.le_trans (next_le_identify ..) hlimit)
    exact hpassed.asked hroot hid hlimit htells
  | hook _ hhandle hkey ih =>
    rw [traceKey_of_hook hhandle] at hkey
    cases hkey
    obtain ⟨hroot, given, hpassed, htells⟩ := ih hlimit
    exact ⟨hroot, given, hpassed, htells.hook _⟩
  | @enterCall log u u' parameters captured callId _ hy ih =>
    have hs : KeepsMarks m u u' := sparesMarks_of_enterCall hy
    obtain ⟨hroot, given, hpassed, htells⟩ := ih (Nat.le_trans (hs.next m rfl) hlimit)
    exact ⟨hroot.keeps hs, _, hpassed.entered rfl hroot.present hy, htells.frame callId⟩
  | token _ hmem ih =>
    obtain ⟨hroot, given, hpassed, htells⟩ := ih hlimit
    have hframe := htells.frames _ hmem
    refine ⟨hroot.alloc _, _, hpassed.token hframe (Nat.le_of_lt_succ ?_), htells.token _ _⟩
    exact Nat.lt_of_lt_of_le (hpassed.frames _ _ hframe).2.2 hlimit

theorem realm_install (w : World σ) (r : RealmId) :
    ((w.install r).2.realm r).global = (w.realm r).global := by
  simp only [install, reflect, realm, Array.getElem?_modify, if_true]
  cases w.realms[r]? <;> rfl

theorem passed_newMonitor (w : World σ) (r : RealmId) (checks : CheckConfig)
    (hunmarked : ∀ id, w.mark? id = none) :
    Passed (fun m => m = (w.newMonitor r checks).1) (fun _ => False) []
      (w.newMonitor r checks).2 := by
  refine .empty ?_ fun id _ => hunmarked id
  rintro m rfl
  rw [nextId, tracer_newMonitor]
  exact Nat.lt_succ_self _

theorem rooted_newMonitor (w : World σ) (r : RealmId) (checks : CheckConfig)
    (hunmarked : ∀ id, w.mark? id = none) (hglobal : (w.realm r).global < w.heap.size) :
    Rooted (w.newMonitor r checks).1 (w.newMonitor r checks).2 := by
  have hself : (w.newMonitor r checks).2.globalOf (w.newMonitor r checks).1 = (w.realm r).global := by
    have hmask : ((w.newMonitor r checks).2.monitor (w.newMonitor r checks).1).mask.realm = r := by
      simp [newMonitor, monitor, install, reflect]
    rw [globalOf, hmask]
    exact realm_install w r
  refine ⟨?_, ?_, hunmarked _⟩
  · simp [newMonitor, install, reflect]
  · rw [hself]
    exact hglobal

structure Ordinary (m : MonitorId) (log : List Told) (u : World σ) (id : ObjectId) : Prop where
  noToken : ¬ IsToken log id
  noGlobal : id ≠ u.globalOf m

structure Consistent (m : MonitorId) (log : List Told) (u : World σ) : Prop where
  stable : ∀ id i j, .object id i ∈ log → .object id j ∈ log → i = j
  injective : ∀ id id' i, Ordinary m log u id → Ordinary m log u id' → .object id i ∈ log →
    .object id' i ∈ log → id = id'
  apart : ∀ id i, Ordinary m log u id → .object id i ∈ log →
    i ≠ globalTraceId ∧ i ≠ globalTraceId + 1 ∧ .frame i ∉ log
  global : ∀ i, .object (u.globalOf m) i ∈ log → i = globalTraceId
  global_unmarked : u.mark? (u.globalOf m) = none
  hook : ∀ id i, .hook id i ∈ log → i = globalTraceId
  hook_unmarked : ∀ id slot, (u.monitor m).handle = some id →
    (u.traceKey m { scope := .object id, slot }).2 = u
  /-- An object that has no mark of its own is answered with a new identity, whatever it inherits. -/
  own : ∀ id, id ≠ u.globalOf m → u.mark? id = none →
    ∀ i, (u.identify m id).1 = i → .frame i ∉ log ∧ ∀ id', .object id' i ∉ log
  token : ∀ id k i, .token id k ∈ log → .object id i ∈ log → i = k

theorem fst_identify_of_unmarked (hne : id ≠ w.globalOf m) (h : w.mark? id = none) :
    (w.identify m id).1 = w.nextId m := by
  have htrace : (w.heap.object id).traceId? = none :=
    Option.eq_none_iff_forall_ne_some.2 fun i hi => mark?_of_traceId? hi h
  rw [identify_eq, Heap.identify, if_neg hne, htrace]

namespace Passed

variable (h : Passed (fun m' => m' = m) (fun _ => False) given u)

include h

theorem answer_bounds (hmem : .answer m id i ∈ given) : i < u.nextId m := by
  rcases (h.answers m id i hmem).2.2 not_false with ⟨-, rfl⟩ | ⟨-, hi⟩
  · exact Nat.lt_of_succ_lt (h.next m rfl)
  · obtain ⟨_, rfl, -, hhigh⟩ := h.bounds not_false hi
    exact hhigh

theorem traceId?_of_answer (hne : id ≠ u.globalOf m) (hmem : .answer m id i ∈ given) :
    u.traceId? id = some i :=
  ((h.answers m id i hmem).2.2 not_false).elim (fun hg => absurd hg.1 hne) fun hi => hi.2

theorem of_answer_global (hmem : .answer m (u.globalOf m) i ∈ given) : i = globalTraceId :=
  ((h.answers m _ i hmem).2.2 not_false).elim (fun hg => hg.2) fun hi => absurd rfl hi.1

theorem mark_of_answer (htells : Tells m given log) (hid : Ordinary m log u id)
    (hmem : .answer m id i ∈ given) : .mark m id i ∈ given := by
  have htoken : ¬ StandsForCall given id := fun htoken => hid.noToken (htells.isToken_iff.2 htoken)
  have hi : i ≠ globalTraceId := by
    rintro rfl
    exact hid.noGlobal (h.eq_global_of_answer not_false hmem)
  obtain ⟨m', hmark⟩ := h.marked_of_answer hmem hi not_false htoken
  obtain ⟨rfl, -⟩ := h.marks m' id i hmark
  exact hmark

theorem consistent (hroot : Rooted m u) (htells : Tells m given log) : Consistent m log u where
  stable id i j hi hj := by
    have hi := htells.objects id i hi
    have hj := htells.objects id j hj
    by_cases hglobal : id = u.globalOf m
    · subst hglobal
      rw [h.of_answer_global hi, h.of_answer_global hj]
    · have hi := h.traceId?_of_answer hglobal hi
      rw [h.traceId?_of_answer hglobal hj] at hi
      exact (Option.some.inj hi).symm
  injective id id' i hid hid' hi hi' := by
    have hmark := h.mark_of_answer htells hid (htells.objects id i hi)
    have hmark' := h.mark_of_answer htells hid' (htells.objects id' i hi')
    exact (h.unique _ _ _ _ _ _ hmark hmark' (.inr ⟨rfl, rfl⟩)).2
  apart id i hid hi := by
    have hmark := h.mark_of_answer htells hid (htells.objects id i hi)
    obtain ⟨-, -, -, hlow, -⟩ := h.marks m id i hmark
    exact ⟨Nat.ne_of_gt (Nat.lt_of_succ_lt hlow), Nat.ne_of_gt hlow,
      fun hframe => h.apart m id i hmark (htells.frames i hframe)⟩
  global i hi := h.of_answer_global (htells.objects _ i hi)
  global_unmarked := hroot.unmarked
  hook := htells.hooks
  hook_unmarked id slot hhandle := by rw [traceKey_of_hook hhandle]
  own id hne hnone i hi := by
    rw [fst_identify_of_unmarked hne hnone] at hi
    subst hi
    exact ⟨fun hframe => Nat.lt_irrefl _ (h.frames m _ (htells.frames _ hframe)).2.2,
      fun id' hmem => Nat.lt_irrefl _ (h.answer_bounds (htells.objects id' _ hmem))⟩
  token id k i hk hi := by
    have htoken := (h.tokens id k ((htells.tokens id k).1 hk)).2.1 not_false
    have hne : id ≠ u.globalOf m := by
      rintro rfl
      exact mark?_of_traceId? htoken hroot.unmarked
    rw [h.traceId?_of_answer hne (htells.objects id i hi)] at htoken
    exact Option.some.inj htoken

end Passed

/-- A monitor that is made for a program whose objects have no marks. What it tells of identities is
consistent as long as there are few enough to be numbers, and whatever its operations do is in a
log. -/
theorem identities_consistent (w : World σ) (r : RealmId) (checks : CheckConfig)
    (hunmarked : ∀ id, w.mark? id = none) (hglobal : (w.realm r).global < w.heap.size) :
    (∀ log u, Deals (w.newMonitor r checks).1 (w.newMonitor r checks).2 log u →
      u.allocated (w.newMonitor r checks).1 < 2 ^ 53 → Consistent (w.newMonitor r checks).1 log u) ∧
    ∀ (m : MonitorId) (call : Call σ), Monitor.CallLeads (DealsOn m) call →
      ∀ u : World σ, DealsOn m u (u.handle m).2 ∧
        (∀ id, DealsOn m u (u.identify m id).2) ∧
        (∀ key, DealsOn m u (u.traceKey m key).2) ∧
        (∀ value target source, Leads (DealsOn m) (Monitor.assign m value target source) u) ∧
        (∀ parameters captured, Leads (DealsOn m) (Monitor.enterCall m parameters captured) u) ∧
        Leads (DealsOn m) (Monitor.leaveCall m) u ∧
        (∀ result left right operator location, Leads (DealsOn m)
          (Monitor.arithmeticCheck call m result left right operator location) u) ∧
        (∀ callee receiver arguments text location, Leads (DealsOn m)
          (Monitor.callCheck call m callee receiver arguments text location) u) ∧
        ∀ key target, Leads (DealsOn m) (Monitor.searchCheck call m key target) u := by
  constructor
  · intro log u h hlimit
    have hnext : u.nextId (w.newMonitor r checks).1 ≤ 2 ^ 53 - 1 + (globalTraceId + 1) :=
      Nat.sub_le_iff_le_add.1 (Nat.le_sub_one_of_lt hlimit)
    obtain ⟨hroot, given, hpassed, htells⟩ := h.told (rooted_newMonitor w r checks hunmarked hglobal)
      (passed_newMonitor w r checks hunmarked) hnext
    exact hpassed.consistent hroot htells
  · intro m call hcall u
    exact ⟨dealsOn_of_keepsMarks (sparesMarks_handle u m), dealsOn_identify u, leads_traceKey dealsOn_identify u,
      fun _ _ _ => Monitor.assign_dealsOn _ _ _ u, fun _ _ => Monitor.enterCall_dealsOn _ _ u,
      Monitor.leaveCall_dealsOn u,
      fun _ _ _ _ _ => Monitor.arithmeticCheck_leads handles_dealsOn hcall _ _ _ _ _ u,
      fun _ _ _ _ _ => Monitor.callCheck_leads handles_dealsOn hcall _ _ _ _ _ u,
      fun _ _ => Monitor.searchCheck_leads hcall _ _ u⟩

def withChild : World Unit :=
  { heap := ⟨#[{}, {}, { parent := some 1 }]⟩, realms := #[{ global := 0 }], program := () }

/-- The parent is asked for, a call is entered for which a token is made, and then the child and the
token are asked for. -/
theorem identities_consistent_withChild :
    ∃ log u, Deals 0 (withChild.newMonitor 0 {}).2 log u ∧
      log = [.object 3 4, .object 2 5, .token 3 4, .frame 4, .object 1 3] ∧
      Consistent 0 log u := by
  have hunmarked : ∀ id, withChild.mark? id = none
    | 0 | 1 | 2 => rfl
    | n + 3 => mark?_of_size_le (Nat.le_add_left 3 n)
  have hw : Deals 0 (withChild.newMonitor 0 {}).2 [] _ := .refl
  have hparent := hw.identify (show 1 < 3 by decide)
  have hframe := hparent.enterCall (show Yields (Monitor.enterCall 0 [some "a"] []) _ 4 _ from rfl)
  have htoken := hframe.token (List.mem_cons_self ..)
  have hchild := htoken.identify (show 2 < 4 by decide)
  have h := hchild.identify (show 3 < 4 by decide)
  exact ⟨_, _, h, by decide +kernel, (identities_consistent withChild 0 {} hunmarked (by decide)).1
    _ _ h (by decide +kernel)⟩

end World

end CoercionTrace
