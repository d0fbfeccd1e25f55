import CoercionTrace.Proofs.Monitor.Lasting

/-!
# Identities that are given

A log of what monitors give out: marks in the heap, answers, the numbers of calls, and objects that
stand for calls. What holds of the log and the heap of monitors that are watched is `Passed`; it is kept
by whatever spares the marks, and by each entry of the log.
-/

namespace CoercionTrace

variable {σ : Type} {m m' : MonitorId} {watched : MonitorId → Prop} {forged : ObjectId → Prop}

inductive Given
  | mark (m : MonitorId) (id : ObjectId) (trace : TraceId)
  | answer (m : MonitorId) (id : ObjectId) (trace : TraceId)
  | frame (m : MonitorId) (callId : TraceId)
  | token (id : ObjectId) (callId : TraceId)
  deriving DecidableEq

def StandsForCall (log : List Given) (id : ObjectId) : Prop := ∃ callId, .token id callId ∈ log

namespace World

variable {w u u' : World σ} {log : List Given} {id : ObjectId} {i k : TraceId}

theorem genuine_of_mark (h : w.Genuine forged) (hmark : u.mark? id = some (traceMark i))
    (hothers : ∀ id', id' ≠ id → u.mark? id' = w.mark? id') : u.Genuine forged := by
  intro id' hgenuine hid'
  by_cases heq : id' = id
  · subst heq
    rw [traceId?, Object.traceId?,
      show (u.heap.object id').property? traceIdProperty = some (traceMark i) from hmark]
    simp [traceMark, Property.sealed, Value.number?]
  · rw [hothers id' heq] at hid'
    rw [traceId?_of_mark? (hothers id' heq)]
    exact h id' hgenuine hid'

theorem sparesMarks_identify_of_known (h : u.Genuine forged)
    (hknown : forged id ∨ id = u.globalOf m ∨ u.mark? id ≠ none) :
    SparesMarks watched forged u (u.identify m id).2 := by
  by_cases hforged : forged id
  · exact sparesMarks_identify_of_forged hforged
  have hknown := hknown.resolve_left hforged
  by_cases hid : id = u.globalOf m
  · exact sparesMarks_identify (by rw [heap_identify_of_global hid])
  · obtain ⟨i, hi⟩ := Option.ne_none_iff_exists'.1 (h id hforged (hknown.resolve_left hid))
    exact sparesMarks_identify (by rw [heap_identify_of_marked hid hi])

theorem sparesMarks_of_enterCall {parameters : List (Option String)} {captured : List String}
    (hy : Yields (Monitor.enterCall m parameters captured) u k u') : SparesMarks watched forged u u' := by
  obtain ⟨entries, g, hb, -, rfl⟩ := step_of_enterCall hy
  exact sparesMarks_onTracer (Tracer.Course.refl.step (.entered hb)).nextId_le.1

theorem size_identify (w : World σ) (m : MonitorId) (id : ObjectId) :
    (w.identify m id).2.monitors.size = w.monitors.size := size_onTracer _ m _

theorem next_le_identify (w : World σ) (m : MonitorId) (id : ObjectId) (m' : MonitorId) :
    w.nextId m' ≤ (w.identify m id).2.nextId m' := by
  by_cases hm : m' = m
  · subst hm
    obtain ⟨-, n, hn, htracer⟩ := identifies_identify (m := m') w id
    rw [nextId, nextId, htracer]
    exact hn
  · rw [nextId, nextId, identify_eq]
    dsimp only
    rw [onTracer, monitor_onMonitor_ne hm]
    exact Nat.le_refl _

theorem globalOf_identify (w : World σ) (m : MonitorId) (id : ObjectId) (m' : MonitorId) :
    (w.identify m id).2.globalOf m' = w.globalOf m' := by
  rw [identify_eq]
  dsimp only
  by_cases hm : m' = m
  · subst hm
    rw [globalOf_onTracer]
    rfl
  · rw [globalOf, onTracer, monitor_onMonitor_ne hm]
    rfl

/-- What a log says was given out is in the world, and was given once: to one object, to a call, or to
an object that stands for a call. All that give are watched. -/
structure Accounted (watched : MonitorId → Prop) (forged : ObjectId → Prop) (log : List Given)
    (u : World σ) : Prop where
  next : ∀ m, watched m → globalTraceId + 1 < u.nextId m
  marks : ∀ m id i, .mark m id i ∈ log → watched m ∧ ¬ forged id ∧ u.traceId? id = some i ∧
    globalTraceId + 1 < i ∧ i < u.nextId m
  unique : ∀ m m' id id' i i', .mark m id i ∈ log → .mark m' id' i' ∈ log →
    id = id' ∨ m = m' ∧ i = i' → m = m' ∧ id = id'
  answers : ∀ m id i, .answer m id i ∈ log → watched m ∧ m < u.monitors.size ∧ (¬ forged id →
    id = u.globalOf m ∧ i = globalTraceId ∨ id ≠ u.globalOf m ∧ u.traceId? id = some i)
  frames : ∀ m k, .frame m k ∈ log → watched m ∧ globalTraceId + 1 < k ∧ k < u.nextId m
  apart : ∀ m id k, .mark m id k ∈ log → .frame m k ∉ log
  tokens : ∀ id k, .token id k ∈ log → (∃ m, .frame m k ∈ log) ∧
    (¬ forged id → u.traceId? id = some k) ∧ ∀ m i, .mark m id i ∉ log

/-- Moreover every mark that is not forged was given. -/
structure Passed (watched : MonitorId → Prop) (forged : ObjectId → Prop) (log : List Given)
    (u : World σ) : Prop extends Accounted watched forged log u where
  given : ∀ id, ¬ forged id → u.mark? id ≠ none →
    (∃ m i, .mark m id i ∈ log) ∨ StandsForCall log id

namespace Accounted

theorem grows (h : Accounted watched forged log u) (hnext : ∀ m, watched m → u.nextId m ≤ u'.nextId m)
    (htrace : ∀ id i, ¬ forged id → u.traceId? id = some i → u'.traceId? id = some i)
    (hpresent : ∀ m, watched m → m < u.monitors.size →
      m < u'.monitors.size ∧ u'.globalOf m = u.globalOf m) :
    Accounted watched forged log u' where
  next m hm := Nat.lt_of_lt_of_le (h.next m hm) (hnext m hm)
  marks m id i hmem := by
    obtain ⟨hm, hid, hi, hlow, hhigh⟩ := h.marks m id i hmem
    exact ⟨hm, hid, htrace id i hid hi, hlow, Nat.lt_of_lt_of_le hhigh (hnext m hm)⟩
  unique := h.unique
  answers m id i hmem := by
    obtain ⟨hm, hsize, hi⟩ := h.answers m id i hmem
    obtain ⟨hsize', hglobal⟩ := hpresent m hm hsize
    rw [hglobal]
    exact ⟨hm, hsize', fun hid => (hi hid).imp_right fun hi => ⟨hi.1, htrace id i hid hi.2⟩⟩
  frames m k hmem := by
    obtain ⟨hm, hlow, hhigh⟩ := h.frames m k hmem
    exact ⟨hm, hlow, Nat.lt_of_lt_of_le hhigh (hnext m hm)⟩
  apart := h.apart
  tokens id k hmem := by
    obtain ⟨hframe, hk, hnomark⟩ := h.tokens id k hmem
    exact ⟨hframe, fun hid => htrace id k hid (hk hid), hnomark⟩

theorem mark (h : Accounted watched forged log u) (hm : watched m) (hid : ¬ forged id)
    (hi : u.traceId? id = some i) (hlow : globalTraceId + 1 < i) (hhigh : i < u.nextId m)
    (hfresh : ∀ m' id' i', .mark m' id' i' ∈ log → ¬ (id' = id ∨ m' = m ∧ i' = i))
    (hframe : .frame m i ∉ log) (htoken : ¬ StandsForCall log id) :
    Accounted watched forged (.mark m id i :: log) u where
  next := h.next
  marks m' id' i' hmem := by
    rcases List.mem_cons.1 hmem with heq | hmem
    · cases heq
      exact ⟨hm, hid, hi, hlow, hhigh⟩
    · exact h.marks m' id' i' hmem
  unique m₁ m₂ id₁ id₂ i₁ i₂ h₁ h₂ hsame := by
    rcases List.mem_cons.1 h₁ with heq₁ | h₁ <;> rcases List.mem_cons.1 h₂ with heq₂ | h₂
    · cases heq₁
      cases heq₂
      exact ⟨rfl, rfl⟩
    · cases heq₁
      exact absurd (hsame.imp Eq.symm fun h => ⟨h.1.symm, h.2.symm⟩) (hfresh _ _ _ h₂)
    · cases heq₂
      exact absurd hsame (hfresh _ _ _ h₁)
    · exact h.unique m₁ m₂ id₁ id₂ i₁ i₂ h₁ h₂ hsame
  answers := by simpa using h.answers
  frames := by simpa using h.frames
  apart m' id' k hmark hmem := by
    have hmem : .frame m' k ∈ log := by simpa using hmem
    rcases List.mem_cons.1 hmark with heq | hmark
    · cases heq
      exact hframe hmem
    · exact h.apart m' id' k hmark hmem
  tokens id' k hmem := by
    have hmem : .token id' k ∈ log := by simpa using hmem
    obtain ⟨⟨m', hk'⟩, hk, hnomark⟩ := h.tokens id' k hmem
    refine ⟨⟨m', List.mem_cons_of_mem _ hk'⟩, hk, fun m' i' hmark => ?_⟩
    rcases List.mem_cons.1 hmark with heq | hmark
    · cases heq
      exact htoken ⟨k, hmem⟩
    · exact hnomark m' i' hmark

theorem token (h : Accounted watched forged log u) (hk : .frame m k ∈ log)
    (hi : u.traceId? id = some k) (hfresh : ∀ m i, .mark m id i ∉ log) :
    Accounted watched forged (.token id k :: log) u where
  next := h.next
  marks := by simpa using h.marks
  unique := by simpa using h.unique
  answers := by simpa using h.answers
  frames := by simpa using h.frames
  apart := by simpa using h.apart
  tokens id' k' hmem := by
    rcases List.mem_cons.1 hmem with heq | hmem
    · cases heq
      exact ⟨⟨m, List.mem_cons_of_mem _ hk⟩, fun _ => hi, by simpa using hfresh⟩
    · obtain ⟨⟨m', hframe⟩, hk', hnomark⟩ := h.tokens id' k' hmem
      exact ⟨⟨m', List.mem_cons_of_mem _ hframe⟩, hk', by simpa using hnomark⟩

theorem answer (h : Accounted watched forged log u) (hm : watched m) (hpresent : m < u.monitors.size)
    (hi : ¬ forged id →
      id = u.globalOf m ∧ i = globalTraceId ∨ id ≠ u.globalOf m ∧ u.traceId? id = some i) :
    Accounted watched forged (.answer m id i :: log) u where
  next := h.next
  marks := by simpa using h.marks
  unique := by simpa using h.unique
  answers m' id' i' hmem := by
    rcases List.mem_cons.1 hmem with heq | hmem
    · cases heq
      exact ⟨hm, hpresent, hi⟩
    · exact h.answers m' id' i' hmem
  frames := by simpa using h.frames
  apart := by simpa using h.apart
  tokens := by simpa using h.tokens

theorem frame (h : Accounted watched forged log u) (hm : watched m) (hlow : globalTraceId + 1 < k)
    (hhigh : k < u.nextId m) (hnew : ∀ id, .mark m id k ∉ log) :
    Accounted watched forged (.frame m k :: log) u where
  next := h.next
  marks := by simpa using h.marks
  unique := by simpa using h.unique
  answers := by simpa using h.answers
  frames m' k' hmem := by
    rcases List.mem_cons.1 hmem with heq | hmem
    · cases heq
      exact ⟨hm, hlow, hhigh⟩
    · exact h.frames m' k' hmem
  apart m' id k' hmark hmem := by
    have hmark : .mark m' id k' ∈ log := by simpa using hmark
    rcases List.mem_cons.1 hmem with heq | hmem
    · cases heq
      exact hnew id hmark
    · exact h.apart m' id k' hmark hmem
  tokens id k' hmem := by
    obtain ⟨⟨m', hframe⟩, hk, hnomark⟩ := h.tokens id k' (by simpa using hmem)
    exact ⟨⟨m', List.mem_cons_of_mem _ hframe⟩, hk, by simpa using hnomark⟩

end Accounted

namespace Passed

theorem empty (hnext : ∀ m, watched m → globalTraceId + 1 < u.nextId m)
    (hunmarked : ∀ id, ¬ forged id → u.mark? id = none) : Passed watched forged [] u where
  next := hnext
  given id hid hmark := absurd (hunmarked id hid) hmark
  marks := by simp
  unique := by simp
  answers := by simp
  frames := by simp
  apart := by simp
  tokens := by simp

theorem bounds (h : Passed watched forged log u) (hid : ¬ forged id) (hi : u.traceId? id = some i) :
    ∃ m, watched m ∧ globalTraceId + 1 < i ∧ i < u.nextId m := by
  rcases h.given id hid (mark?_of_traceId? hi) with ⟨m, j, hmark⟩ | ⟨k, htoken⟩
  · obtain ⟨hm, -, hj, hbounds⟩ := h.marks m id j hmark
    obtain rfl := Option.some.inj (hj.symm.trans hi)
    exact ⟨m, hm, hbounds⟩
  · obtain ⟨⟨m, hframe⟩, hk, -⟩ := h.tokens id k htoken
    obtain rfl := Option.some.inj ((hk hid).symm.trans hi)
    exact ⟨m, h.frames m k hframe⟩

theorem genuine (h : Passed watched forged log u) : u.Genuine forged := by
  intro id hid hmark
  rcases h.given id hid hmark with ⟨m, i, hmark⟩ | ⟨k, htoken⟩
  · simp [(h.marks m id i hmark).2.2.1]
  · simp [(h.tokens id k htoken).2.1 hid]

theorem spares (h : Passed watched forged log u) (hs : SparesMarks watched forged u u') :
    Passed watched forged log u' where
  toAccounted := h.grows hs.next
    (fun id _ hid hi => (traceId?_of_mark? (hs.marks id hid)).trans hi)
    fun m hm hpresent => ⟨hs.present m hm hpresent, hs.global m hm hpresent⟩
  given id hid hmark := h.given id hid (hs.marks id hid ▸ hmark)

theorem answer (h : Passed watched forged log u) (hm : watched m) (hpresent : m < u.monitors.size)
    (hi : ¬ forged id →
      id = u.globalOf m ∧ i = globalTraceId ∨ id ≠ u.globalOf m ∧ u.traceId? id = some i) :
    Passed watched forged (.answer m id i :: log) u where
  toAccounted := h.toAccounted.answer hm hpresent hi
  given := by simpa [StandsForCall] using h.given

theorem frame (h : Passed watched forged log u) (hm : watched m) (hlow : globalTraceId + 1 < k)
    (hhigh : k < u.nextId m) (hnew : ∀ id, .mark m id k ∉ log) :
    Passed watched forged (.frame m k :: log) u where
  toAccounted := h.toAccounted.frame hm hlow hhigh hnew
  given := by simpa [StandsForCall] using h.given

theorem given_cons {e : Given} (h : Passed watched forged log u) (hid : ¬ forged id)
    (hmark : u.mark? id ≠ none) : (∃ m i, .mark m id i ∈ e :: log) ∨ StandsForCall (e :: log) id :=
  (h.given id hid hmark).imp (fun ⟨m, i, hmem⟩ => ⟨m, i, List.mem_cons_of_mem _ hmem⟩)
    fun ⟨k, hmem⟩ => ⟨k, List.mem_cons_of_mem _ hmem⟩

theorem traceId?_of_fresh {id' : ObjectId} (hnone : u.mark? id = none)
    (hothers : ∀ id', id' ≠ id → u'.mark? id' = u.mark? id') (hi : u.traceId? id' = some i) :
    id' ≠ id ∧ u'.traceId? id' = some i := by
  have hid' : id' ≠ id := by
    rintro rfl
    exact mark?_of_traceId? hi hnone
  exact ⟨hid', (traceId?_of_mark? (hothers id' hid')).trans hi⟩

theorem mark (h : Passed watched forged log u) (hm : watched m) (hpresent : m < u.monitors.size)
    (hid : id < u.heap.size) (hgenuine : ¬ forged id) (hne : id ≠ u.globalOf m)
    (hnone : u.mark? id = none) (hlimit : u.nextId m ≤ 2 ^ 53) :
    Passed watched forged (.mark m id (u.nextId m) :: log) (u.identify m id).2 ∧
      (u.identify m id).2.traceId? id = some (u.nextId m) := by
  obtain ⟨-, hmarks⟩ := identify_of_unmarked hpresent hid hne hnone
  have hself := Object.traceId?_of_traceMark hlimit hmarks.mark
  have hother : ∀ {id' i}, u.traceId? id' = some i →
      id' ≠ id ∧ (u.identify m id).2.traceId? id' = some i :=
    traceId?_of_fresh hnone hmarks.others
  have haccounted : Accounted watched forged log (u.identify m id).2 :=
    h.grows (fun m' _ => next_le_identify u m id m') (fun _ _ _ hi => (hother hi).2)
      fun m' _ hm' => ⟨(size_identify u m id).symm ▸ hm', globalOf_identify u m id m'⟩
  refine ⟨⟨haccounted.mark hm hgenuine hself (h.next m hm) (hmarks.next ▸ Nat.lt_succ_self _) ?_
    (fun hmem => Nat.lt_irrefl _ (h.frames _ _ hmem).2.2) ?_, ?_⟩, hself⟩
  · rintro m' id' i hmem (rfl | ⟨rfl, rfl⟩)
    · exact (hother (h.marks _ _ _ hmem).2.2.1).1 rfl
    · exact Nat.lt_irrefl _ (h.marks _ _ _ hmem).2.2.2.2
  · rintro ⟨k, hmem⟩
    exact (hother ((h.tokens id k hmem).2.1 hgenuine)).1 rfl
  · intro id' hgenuine' hid'
    by_cases heq : id' = id
    · subst heq
      exact .inl ⟨m, _, List.mem_cons_self⟩
    · exact h.given_cons hgenuine' (hmarks.others id' heq ▸ hid')

theorem token (h : Passed watched forged log u) (hk : .frame m k ∈ log) (hlimit : k ≤ 2 ^ 53) :
    Passed watched forged (.token (u.alloc (scopeToken k)).1 k :: log) (u.alloc (scopeToken k)).2 := by
  have hself : (u.alloc (scopeToken k)).2.traceId? u.heap.size = some k :=
    Object.traceId?_of_traceMark hlimit ((mark?_alloc_self u _).trans (property?_scopeToken k))
  have hother : ∀ {id i}, u.traceId? id = some i →
      id ≠ u.heap.size ∧ (u.alloc (scopeToken k)).2.traceId? id = some i :=
    traceId?_of_fresh (mark?_of_size_le (Nat.le_refl _)) fun _ hid => mark?_alloc_of_ne _ hid
  have haccounted : Accounted watched forged log (u.alloc (scopeToken k)).2 :=
    h.grows (fun _ _ => Nat.le_refl _) (fun _ _ _ hi => (hother hi).2) fun _ _ hm => ⟨hm, rfl⟩
  refine ⟨haccounted.token hk hself fun m' i hmem => (hother (h.marks _ _ _ hmem).2.2.1).1 rfl, ?_⟩
  intro id hgenuine hid
  by_cases heq : id = u.heap.size
  · subst heq
    exact .inr ⟨k, List.mem_cons_self⟩
  · exact h.given_cons hgenuine (mark?_alloc_of_ne _ heq ▸ hid)

theorem answered (h : Passed watched forged log u) (hm : watched m) (hpresent : m < u.monitors.size)
    (hknown : forged id ∨ id = u.globalOf m ∨ u.mark? id ≠ none) :
    Passed watched forged (.answer m id (u.identify m id).1 :: log) (u.identify m id).2 := by
  have hpresent' : m < (u.identify m id).2.monitors.size := (size_identify u m id).symm ▸ hpresent
  have hglobal := globalOf_identify u m id m
  have hs : SparesMarks watched forged u (u.identify m id).2 :=
    sparesMarks_identify_of_known h.genuine hknown
  refine (h.spares hs).answer hm hpresent' fun hgenuine => ?_
  have hknown := hknown.resolve_left hgenuine
  rw [hglobal]
  by_cases hid : id = u.globalOf m
  · obtain ⟨htrace, -⟩ : _ ∧ SparesMarks watched forged u _ := identify_of_global hid
    exact .inl ⟨hid, htrace⟩
  · obtain ⟨i, hi⟩ :=
      Option.ne_none_iff_exists'.1 (h.genuine id hgenuine (hknown.resolve_left hid))
    obtain ⟨htrace, -⟩ : _ ∧ SparesMarks watched forged u _ := identify_of_marked hid hi
    refine .inr ⟨hid, ?_⟩
    rw [htrace, traceId?_of_mark? (hs.marks id hgenuine), hi]

theorem marked (h : Passed watched forged log u) (hm : watched m) (hpresent : m < u.monitors.size)
    (hid : id < u.heap.size) (hgenuine : ¬ forged id) (hne : id ≠ u.globalOf m)
    (hnone : u.mark? id = none) (hlimit : (u.identify m id).2.nextId m ≤ 2 ^ 53 + 1) :
    Passed watched forged
      (.answer m id (u.identify m id).1 :: .mark m id (u.identify m id).1 :: log)
      (u.identify m id).2 := by
  obtain ⟨htrace, hmarks⟩ := identify_of_unmarked hpresent hid hne hnone
  rw [hmarks.next] at hlimit
  obtain ⟨hmarked, hself⟩ :=
    h.mark hm hpresent hid hgenuine hne hnone (Nat.le_of_succ_le_succ hlimit)
  rw [htrace]
  refine hmarked.answer hm ((size_identify u m id).symm ▸ hpresent) fun _ => .inr ⟨?_, hself⟩
  rwa [globalOf_identify]

theorem entered {parameters : List (Option String)} {captured : List String}
    (h : Passed watched forged log u) (hm : watched m) (hpresent : m < u.monitors.size)
    (hy : Yields (Monitor.enterCall m parameters captured) u k u') :
    Passed watched forged (.frame m k :: log) u' := by
  have hs : SparesMarks watched forged u u' := sparesMarks_of_enterCall hy
  obtain ⟨entries, g, hb, rfl, rfl⟩ := step_of_enterCall hy
  have hnext : (u.onTracer m fun _ => (u.monitor m).tracer.begun entries g).nextId m =
      u.nextId m + 1 := nextId_onTracer hpresent _
  refine (h.spares hs).frame hm (h.next m hm) ?_ fun id hmem => ?_
  · rw [hnext]
    exact Nat.lt_succ_self _
  · exact Nat.lt_irrefl _ (h.marks m id _ hmem).2.2.2.2

theorem marked_of_answer (h : Passed watched forged log u) (hmem : .answer m id i ∈ log)
    (hi : i ≠ globalTraceId) (hgenuine : ¬ forged id) (htoken : ¬ StandsForCall log id) :
    ∃ m', .mark m' id i ∈ log := by
  rcases (h.answers m id i hmem).2.2 hgenuine with ⟨-, hglobal⟩ | ⟨-, htrace⟩
  · exact absurd hglobal hi
  · obtain ⟨m', j, hmark⟩ :=
      (h.given id hgenuine (mark?_of_traceId? htrace)).resolve_right htoken
    have hj := (h.marks m' id j hmark).2.2.1
    exact ⟨m', Option.some.inj (hj.symm.trans htrace) ▸ hmark⟩

theorem eq_global_of_answer (h : Passed watched forged log u) (hid : ¬ forged id)
    (hmem : .answer m id globalTraceId ∈ log) : id = u.globalOf m := by
  rcases (h.answers m id _ hmem).2.2 hid with ⟨hglobal, -⟩ | ⟨-, htrace⟩
  · exact hglobal
  · obtain ⟨_, -, hlow, -⟩ := h.bounds hid htrace
    exact absurd hlow (by decide)

end Passed

end World

end CoercionTrace
