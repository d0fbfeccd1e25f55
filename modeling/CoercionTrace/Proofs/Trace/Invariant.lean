import CoercionTrace.Proofs.Trace.Binding

/-!
# What every tracer keeps to

A source that is stored in the global table never names a place of a running call, and the result
of a call is never stored as a source at all: it is resolved when it is recorded. Main statements:
the history of a slot consists of entries that may be kept (`CallStack.chase_lasting`), and every
step of a tracer, failed or not, preserves `Tracer.Invariant` (`record_leads`, `pushFrame_leads`,
`popFrame_leads`).
-/

namespace CoercionTrace

/-- Entries that a running call may hold. None is about no place at all, and none claims to come from
the result of a call. -/
def Keepable (entries : Table Slot TraceItem) : Prop :=
  ∀ slot item, entries.find? slot = some item → slot ≠ .anonymous ∧ item.source ≠ .here .result

theorem keepable_empty : Keepable .empty := by
  intro slot item h
  simp at h

theorem Keepable.insert {entries : Table Slot TraceItem} (h : Keepable entries) {slot : Slot}
    {item : TraceItem} (hslot : slot ≠ .anonymous) (hitem : item.source ≠ .here .result) :
    Keepable (entries.insert slot item) := by
  intro k i hk
  rw [Table.find?_insert] at hk
  split at hk
  · next e =>
    cases hk
    exact ⟨e ▸ hslot, hitem⟩
  · exact h k i hk

def CallStack.bottom (s : CallStack) : Frame := s.below.getLast?.getD s.top

theorem CallStack.getLast?_frames (s : CallStack) : s.frames.getLast? = some s.bottom :=
  List.getLast?_cons

namespace Tracer

/-- The result of a call that ended is kept in the global table, under the identity of that call. -/
def KeepsResult (t : Tracer) (item : TraceItem) : Prop :=
  ∃ c, item.source = .of c .result ∧ c < t.nextId ∧ c ∉ t.stack.frames.map Frame.callId ∧
    ∃ kept, t.global.find? (.of c .result) = some kept ∧ kept.value = item.value

structure Invariant (t : Tracer) : Prop where
  ordered : (t.stack.frames.map Frame.callId).Pairwise (· > ·)
  ids : ∀ f ∈ t.stack.frames, globalTraceId < f.callId ∧ f.callId < t.nextId
  entries : ∀ f ∈ t.stack.frames, Keepable f.entries
  global : ∀ key item, t.global.find? key = some item →
    key.isTraced = true ∧ item.source.isVolatile = false
  returns : ∀ f ∈ t.stack.frames, ∀ item, f.calleeReturn = some item → t.KeepsResult item

def Keeps (t t' : Tracer) : Prop :=
  t.Invariant → t'.Invariant ∧ t'.stack.bottom.callId = t.stack.bottom.callId

instance : IsPreorder Tracer Keeps where
  refl _ h := ⟨h, rfl⟩
  trans _ _ _ h₁ h₂ h := ⟨(h₂ (h₁ h).1).1, (h₂ (h₁ h).1).2.trans (h₁ h).2⟩

end Tracer

namespace CallStack

def Lasting (history : List Hop × TraceKey) : Prop :=
  (∀ hop ∈ history.1, hop.slot ≠ .anonymous ∧ hop.slot ≠ .result) ∧ history.2.isVolatile = false

theorem keepable_without {s : CallStack} (h : ∀ f ∈ s.frames, Keepable f.entries) (slot : Slot) :
    ∀ f ∈ (s.without slot).frames, Keepable f.entries := by
  intro f hf
  simp only [frames, without, List.mem_cons] at hf
  rcases hf with rfl | hf
  · intro k item hk
    exact h s.top (by simp [frames]) k item (Table.find?_of_find?_erase hk)
  · exact h f (by simp [frames, hf])

theorem keepable_owner {s t : CallStack} {slot : Slot} (h : ∀ f ∈ s.frames, Keepable f.entries)
    (ht : s.owner slot = .ok t) : ∀ f ∈ t.frames, Keepable f.entries := by
  obtain ⟨top, below⟩ := s
  cases slot with
  | argument i =>
    cases below with
    | nil => simp [owner, caller?] at ht
    | cons f rest =>
      simp only [owner, caller?, Except.ok.injEq] at ht
      subst ht
      exact fun g hg => h g (List.mem_cons_of_mem _ hg)
  | _ =>
    simp only [owner, Except.ok.injEq] at ht
    subst ht
    exact h

theorem slot_of_volatile {source : TraceKey} (hs : source ≠ .here .result)
    (hv : source.isVolatile = true) : source.slot ≠ .anonymous ∧ source.slot ≠ .result := by
  obtain ⟨scope, slot⟩ := source
  simp only [TraceKey.isVolatile, TraceKey.isHere, TraceKey.isTraced, Bool.and_eq_true, beq_iff_eq,
    bne_iff_ne] at hv
  obtain ⟨rfl, hslot⟩ := hv
  exact ⟨hslot, fun e => hs (congrArg TraceKey.here e)⟩

theorem chase_lasting (s : CallStack) (slot : Slot) (history : List Hop × TraceKey)
    (h : ∀ f ∈ s.frames, Keepable f.entries) (hslot : slot ≠ .anonymous ∧ slot ≠ .result)
    (hc : s.chase slot = .ok history) : Lasting history := by
  fun_induction chase s slot generalizing history with
  | case1 s slot hf =>
    cases hc
    exact ⟨by simp, rfl⟩
  | case2 => cases hc
  | case3 => cases hc
  | case4 s slot item hf hop hv t ho hops terminal he ih =>
    cases hc
    have hitem := h s.top (by simp [frames]) slot item hf
    obtain ⟨hhops, hterminal⟩ := ih (hops, terminal) (keepable_owner (keepable_without h slot) ho)
      (slot_of_volatile hitem.2 hv) he
    exact ⟨List.forall_mem_cons.2 ⟨hslot, hhops⟩, hterminal⟩
  | case5 s slot item hf hop hv =>
    cases hc
    exact ⟨by simpa [hop] using hslot, by simpa using hv⟩

theorem history_lasting {s : CallStack} {slot : Slot} {history : List Hop × TraceKey}
    (h : ∀ f ∈ s.frames, Keepable f.entries) (hslot : slot ≠ .anonymous ∧ slot ≠ .result)
    (hc : s.history slot = .ok history) : Lasting history := by
  unfold CallStack.history at hc
  split at hc
  · cases hc
  · next t ht => exact chase_lasting t slot history (keepable_owner h ht) hslot hc

end CallStack

/-- Of two global tables, the second holds what the first holds and what may be added to it. What is
kept about results of calls stays. -/
structure Extends (before after : Table TraceKey TraceItem) : Prop where
  items : ∀ key item, after.find? key = some item →
    before.find? key = some item ∨ key.isTraced = true ∧ item.source.isVolatile = false
  results : ∀ c, after.find? (.of c .result) = before.find? (.of c .result)

namespace Extends

theorem refl (g : Table TraceKey TraceItem) : Extends g g := ⟨fun _ _ h => .inl h, fun _ => rfl⟩

theorem trans {g₁ g₂ g₃ : Table TraceKey TraceItem} (h₁ : Extends g₁ g₂) (h₂ : Extends g₂ g₃) :
    Extends g₁ g₃ := by
  refine ⟨fun key item h => ?_, fun c => (h₂.results c).trans (h₁.results c)⟩
  rcases h₂.items key item h with h | h
  · exact h₁.items key item h
  · exact .inr h

theorem insert (g : Table TraceKey TraceItem) {key : TraceKey} {item : TraceItem}
    (hkey : key.slot ≠ .anonymous ∧ key.slot ≠ .result) (hitem : item.source.isVolatile = false) :
    Extends g (g.insert key item) := by
  constructor
  · intro k i h
    rw [Table.find?_insert] at h
    split at h
    · next e =>
      cases h
      exact .inr ⟨by simpa [← e, TraceKey.isTraced] using hkey.1, hitem⟩
    · exact .inl h
  · intro c
    exact g.find?_insert_ne _ fun e => hkey.2 (by rw [e]; rfl)

end Extends

namespace Tracer

theorem copyHops_extends {hops : List Hop} {terminal : TraceKey}
    (h : CallStack.Lasting (hops, terminal)) (g : Table TraceKey TraceItem) :
    (copyHops hops terminal g).1.isVolatile = false ∧ Extends g (copyHops hops terminal g).2 := by
  obtain ⟨hhops, hterminal⟩ := h
  induction hops with
  | nil => exact ⟨hterminal, .refl g⟩
  | cons hop rest ih =>
    obtain ⟨hkey, hext⟩ := ih (fun hop hm => hhops hop (List.mem_cons_of_mem _ hm)) hterminal
    refine ⟨rfl, hext.trans (.insert _ ?_ hkey)⟩
    exact hhops hop List.mem_cons_self

/-- A step that touches nothing but the global table, and only adds to it what may be added. -/
def Adds (t t' : Tracer) : Prop := ∃ g, t' = { t with global := g } ∧ Extends t.global g

instance : IsPreorder Tracer Adds where
  refl t := ⟨t.global, rfl, .refl _⟩
  trans _ _ _ := by
    rintro ⟨g, rfl, h⟩ ⟨g', rfl, h'⟩
    exact ⟨g', rfl, h.trans h'⟩

theorem Invariant.adds {t t' : Tracer} (h : t.Invariant) (ha : Adds t t') : t'.Invariant := by
  obtain ⟨g, rfl, hext⟩ := ha
  refine { ordered := h.ordered, ids := h.ids, entries := h.entries, global := ?_, returns := ?_ }
  · intro key item hk
    rcases hext.items key item hk with hk | hk
    · exact h.global key item hk
    · exact hk
  · intro f hf item hi
    obtain ⟨c, hc, hlt, hlive, kept, hkept, hv⟩ := h.returns f hf item hi
    exact ⟨c, hc, hlt, hlive, kept, (hext.results c).trans hkept, hv⟩

theorem adds_keep {t : Tracer} {history : Except TraceError (List Hop × TraceKey)}
    (h : ∀ p, history = .ok p → CallStack.Lasting p) : Leads Adds (keep history) t := by
  unfold keep
  split
  · exact .throw _
  · next hops terminal =>
    refine Leads.get_bind (Leads.bind (.set ?_) fun _ _ _ => .pure _)
    exact ⟨_, rfl, (copyHops_extends (h _ rfl) _).2⟩

theorem volatile_of_yields_keep {t t' : Tracer} {key : TraceKey}
    {history : Except TraceError (List Hop × TraceKey)}
    (h : ∀ p, history = .ok p → CallStack.Lasting p) (hy : Yields (keep history) t key t') :
    key.isVolatile = false := by
  unfold keep at hy
  split at hy
  · exact (Yields.not_throw hy).elim
  · next hops terminal =>
    obtain ⟨_, _, -, hy⟩ := Yields.bind_iff.1 (Yields.get_bind_iff.1 hy)
    obtain ⟨rfl, -⟩ := Yields.pure_iff.1 hy
    exact (copyHops_extends (h _ rfl) _).1

theorem lasting_adds {t : Tracer} {source : TraceKey} (h : t.Invariant)
    (hs : source ≠ .here .result) : Leads Adds (lasting source) t := by
  unfold lasting
  split
  · next hv =>
    exact .get_bind
      (adds_keep fun p => CallStack.history_lasting h.entries (CallStack.slot_of_volatile hs hv))
  · exact .pure _

theorem volatile_of_yields_lasting {t t' : Tracer} {source key : TraceKey} (h : t.Invariant)
    (hs : source ≠ .here .result) (hy : Yields (lasting source) t key t') :
    key.isVolatile = false := by
  unfold lasting at hy
  split at hy
  · next hv =>
    exact volatile_of_yields_keep
      (fun p => CallStack.history_lasting h.entries (CallStack.slot_of_volatile hs hv))
      (Yields.get_bind_iff.1 hy)
  · next hv =>
    obtain ⟨rfl, -⟩ := Yields.pure_iff.1 hy
    simpa using hv

theorem adds_writeGlobal (t : Tracer) {key : TraceKey} {item : TraceItem}
    (hkey : key.slot ≠ .anonymous ∧ key.slot ≠ .result) (hitem : item.source.isVolatile = false) :
    Adds t (t.writeGlobal key item) :=
  ⟨_, rfl, .insert _ hkey hitem⟩

theorem Gives.source_ne_result {t : Tracer} {arguments i : Nat} {item : TraceItem}
    (h : t.Gives arguments i item) : item.source ≠ .here .result := by
  cases h <;> simp [TraceKey.untraced, TraceKey.here]

theorem Publishes.extends {t : Tracer} {name : String} {i : Nat} {item : TraceItem}
    {g g' : Table TraceKey TraceItem} (h : t.Publishes name i item g g')
    (hentries : ∀ f ∈ t.clearPending.stack.frames, Keepable f.entries) : Extends g g' := by
  have hkey : (TraceKey.of t.nextId (.name name)).slot ≠ .anonymous ∧
      (TraceKey.of t.nextId (.name name)).slot ≠ .result := ⟨by simp [TraceKey.of], by simp [TraceKey.of]⟩
  cases h with
  | omitted ht => exact .insert g hkey (by simp [TraceKey.isVolatile, ht])
  | passed _ hc =>
    obtain ⟨hlast, hext⟩ := copyHops_extends
      (CallStack.chase_lasting _ _ _ hentries ⟨by simp, by simp⟩ hc) g
    exact hext.trans (.insert _ hkey hlast)

theorem Binds.extends {t : Tracer} {arguments : Nat} {captured : List String}
    {parameters : List (Option String)} {entries : Table Slot TraceItem}
    {g : Table TraceKey TraceItem} (h : t.Binds arguments captured parameters entries g)
    (hentries : ∀ f ∈ t.clearPending.stack.frames, Keepable f.entries) : Extends t.global g := by
  induction h with
  | nil => exact .refl _
  | skipped _ _ ih => exact ih
  | kept _ _ _ ih => exact ih
  | published _ _ _ hpublishes ih => exact ih.trans (hpublishes.extends hentries)

theorem Binds.keepable {t : Tracer} {arguments : Nat} {captured : List String}
    {parameters : List (Option String)} {entries : Table Slot TraceItem}
    {g : Table TraceKey TraceItem} (h : t.Binds arguments captured parameters entries g) :
    Keepable entries := by
  intro slot item hi
  obtain ⟨name, i, rfl, hbinding⟩ := h.find?_iff.1 hi
  exact ⟨by simp, hbinding.gives.source_ne_result⟩

@[simp] theorem frames_onTop (t : Tracer) (g : Frame → Frame) :
    (t.onTop g).stack.frames = g t.stack.top :: t.stack.below := rfl

theorem top_mem_frames (t : Tracer) : t.stack.top ∈ t.stack.frames := List.mem_cons_self

theorem bottom_onTop (t : Tracer) {g : Frame → Frame} (hid : (g t.stack.top).callId = t.stack.top.callId) :
    (t.onTop g).stack.bottom.callId = t.stack.bottom.callId := by
  obtain ⟨next, ⟨top, below⟩, global⟩ := t
  cases h : below.getLast? <;> simp [onTop, CallStack.bottom, h, hid]

theorem keeps_onTop {t : Tracer} {g : Frame → Frame}
    (hid : (g t.stack.top).callId = t.stack.top.callId)
    (he : t.Invariant → Keepable (g t.stack.top).entries)
    (hr : t.Invariant → ∀ item, (g t.stack.top).calleeReturn = some item → t.KeepsResult item) :
    Keeps t (t.onTop g) := by
  intro h
  have hids : (t.onTop g).stack.frames.map Frame.callId = t.stack.frames.map Frame.callId := by
    rw [frames_onTop]
    simp [CallStack.frames, hid]
  have hkept : ∀ item, t.KeepsResult item → (t.onTop g).KeepsResult item := by
    rintro item ⟨c, hc, hlt, hlive, hkept⟩
    exact ⟨c, hc, hlt, hids ▸ hlive, hkept⟩
  refine ⟨?_, bottom_onTop t hid⟩
  refine { ordered := hids ▸ h.ordered, ids := ?_, entries := ?_, global := h.global, returns := ?_ }
  · intro f hf
    rw [frames_onTop] at hf
    rcases List.mem_cons.1 hf with rfl | hf
    · rw [hid]
      exact h.ids t.stack.top t.top_mem_frames
    · exact h.ids f (List.mem_cons_of_mem _ hf)
  · intro f hf
    rw [frames_onTop] at hf
    rcases List.mem_cons.1 hf with rfl | hf
    · exact he h
    · exact h.entries f (List.mem_cons_of_mem _ hf)
  · intro f hf item hi
    rw [frames_onTop] at hf
    rcases List.mem_cons.1 hf with rfl | hf
    · exact hkept item (hr h item hi)
    · exact hkept item (h.returns f (List.mem_cons_of_mem _ hf) item hi)

theorem keeps_clearReturn (t : Tracer) : Keeps t t.clearReturn :=
  keeps_onTop rfl (fun h => h.entries t.stack.top t.top_mem_frames) fun _ _ hi => by cases hi

theorem keeps_announce (t : Tracer) (arguments : Nat) : Keeps t (t.announce arguments) :=
  keeps_onTop rfl (fun h => h.entries t.stack.top t.top_mem_frames) fun h => h.returns t.stack.top t.top_mem_frames

theorem keeps_clearPending (t : Tracer) : Keeps t t.clearPending :=
  keeps_onTop rfl (fun h => h.entries t.stack.top t.top_mem_frames) fun h => h.returns t.stack.top t.top_mem_frames

theorem keeps_writeLocal (t : Tracer) {slot : Slot} {item : TraceItem} (hslot : slot ≠ .anonymous)
    (hitem : t.Invariant → item.source ≠ .here .result) : Keeps t (t.writeLocal slot item) :=
  keeps_onTop rfl (fun h => Keepable.insert (h.entries t.stack.top t.top_mem_frames) hslot (hitem h))
    fun h => h.returns t.stack.top t.top_mem_frames

theorem keeps_eraseLocal (t : Tracer) (slot : Slot) : Keeps t (t.eraseLocal slot) :=
  keeps_onTop rfl
    (fun h k item hk => h.entries t.stack.top t.top_mem_frames k item (Table.find?_of_find?_erase hk))
    fun h => h.returns t.stack.top t.top_mem_frames

theorem keeps_nextId {t : Tracer} {n : TraceId} (hn : t.nextId ≤ n) :
    Keeps t { t with nextId := n } := by
  intro h
  refine ⟨{ h with ids := ?_, returns := ?_ }, rfl⟩
  · exact fun f hf => ⟨(h.ids f hf).1, Nat.lt_of_lt_of_le (h.ids f hf).2 hn⟩
  · intro f hf item hi
    obtain ⟨c, hc, hlt, hrest⟩ := h.returns f hf item hi
    exact ⟨c, hc, Nat.lt_of_lt_of_le hlt hn, hrest⟩

theorem keeps_of_adds {t t' : Tracer} (h : Adds t t') : Keeps t t' := by
  intro hi
  refine ⟨hi.adds h, ?_⟩
  obtain ⟨g, rfl, -⟩ := h
  rfl

theorem resolve_ne_result {t : Tracer} (h : t.Invariant) (source : TraceKey) :
    t.resolve source ≠ .here .result := by
  unfold resolve
  split
  · cases hr : t.stack.top.calleeReturn with
    | none => simp [TraceKey.untraced, TraceKey.here]
    | some item =>
      obtain ⟨c, hc, -⟩ := h.returns _ List.mem_cons_self item hr
      simp [hc, TraceKey.of, TraceKey.here]
  · assumption

theorem leads_keeps {α : Type} {x : TraceM α} {t : Tracer}
    (h : t.Invariant → Leads Keeps x t) : Leads Keeps x t := fun hi => h hi hi

theorem record_leads {t : Tracer} {target : TraceKey}
    (ht : target.isHere = true ∨ target.slot ≠ .result) (value : Value) (source : TraceKey) :
    Leads Keeps (record target value source) t := by
  unfold record
  split
  · next htraced =>
    have hslot : target.slot ≠ .anonymous := by simpa [TraceKey.isTraced] using htraced
    split
    · refine Leads.get_bind ?_
      split
      · exact .modify (keeps_writeLocal t hslot fun h => resolve_ne_result h source)
      · next hhere =>
        refine leads_keeps fun h => ?_
        have hs := resolve_ne_result h source
        refine Leads.bind ((lasting_adds h hs).mono keeps_of_adds) fun key u hy => .modify ?_
        exact keeps_of_adds (adds_writeGlobal u ⟨hslot, ht.resolve_left hhere⟩
          (volatile_of_yields_lasting h hs hy))
    · split
      · exact .modify (keeps_eraseLocal t _)
      · exact .pure _
  · exact .pure _

theorem Invariant.push {t : Tracer} (h : t.Invariant) {entries : Table Slot TraceItem}
    (he : Keepable entries) :
    Invariant { t with
      nextId := t.nextId + 1
      stack := { top := { callId := t.nextId, entries }, below := t.stack.frames } } := by
  refine { ordered := ?_, ids := ?_, entries := ?_, global := h.global, returns := ?_ }
  · refine List.pairwise_cons.2 ⟨fun id hm => ?_, h.ordered⟩
    obtain ⟨f, hf, rfl⟩ := List.mem_map.1 hm
    exact (h.ids f hf).2
  · refine List.forall_mem_cons.2 ⟨⟨?_, Nat.lt_succ_self _⟩, fun f hf => ?_⟩
    · exact Nat.lt_trans (h.ids t.stack.top t.top_mem_frames).1 (h.ids t.stack.top t.top_mem_frames).2
    · exact ⟨(h.ids f hf).1, Nat.lt_succ_of_lt (h.ids f hf).2⟩
  · exact List.forall_mem_cons.2 ⟨he, h.entries⟩
  · refine List.forall_mem_cons.2 ⟨?_, fun f hf item hi => ?_⟩
    · intro item hi
      cases hi
    · obtain ⟨c, hc, hlt, hlive, hkept⟩ := h.returns f hf item hi
      exact ⟨c, hc, Nat.lt_succ_of_lt hlt,
        List.not_mem_cons_of_ne_of_not_mem (Nat.ne_of_lt hlt) hlive, hkept⟩

theorem bottom_push (s : CallStack) (f : Frame) :
    CallStack.bottom { top := f, below := s.frames } = s.bottom := by
  simp [CallStack.bottom, CallStack.frames, List.getLast?_cons]

theorem pushFrame_leads (t : Tracer) (parameters : List (Option String)) (captured : List String) :
    Leads Keeps (pushFrame parameters captured) t := by
  refine leads_keeps fun h => ?_
  obtain ⟨hclear, hbottom⟩ := keeps_clearPending t h
  -- The table to which parameters went, and the bottom frame of the call that begins.
  have hadded : ∀ {g}, Extends t.global g → Invariant { t.clearPending with global := g } :=
    fun hg => hclear.adds ⟨_, rfl, hg⟩
  have hbegun : ∀ {entries g}, Keepable entries → Extends t.global g →
      Keeps t (t.begun entries g) := fun he hg _ =>
    ⟨(hadded hg).push he, (congrArg Frame.callId (bottom_push _ _)).trans hbottom⟩
  rcases t.pushFrame_outcome parameters captured with
    ⟨-, hy⟩ | ⟨n, -, ⟨entries, g, hbinds, hy⟩ | ⟨e, g, hstops, hf⟩⟩
  · rw [Leads, hy]
    exact hbegun keepable_empty (.refl _)
  · rw [Leads, hy]
    exact hbegun hbinds.keepable (hbinds.extends hclear.entries)
  · obtain ⟨_, _, _, _, _, -, -, hbinds, -⟩ := hstops
    rw [Leads, hf]
    exact fun _ => ⟨(keeps_nextId (Nat.le_succ _) (hadded (hbinds.extends hclear.entries))).1, hbottom⟩

theorem caller_eq {s caller : CallStack} (h : s.caller? = some caller) :
    s = { top := s.top, below := caller.frames } := by
  obtain ⟨top, below⟩ := s
  cases below with
  | nil => simp [CallStack.caller?] at h
  | cons f rest =>
    simp only [CallStack.caller?, Option.some.injEq] at h
    subst h
    rfl

theorem bottom_caller {s caller : CallStack} (h : s.caller? = some caller) :
    caller.bottom = s.bottom := by
  rw [caller_eq h, bottom_push]

theorem Invariant.pop {t : Tracer} (h : t.Invariant) {caller : CallStack}
    (hc : t.stack.caller? = some caller) : Invariant { t with stack := caller } := by
  have hframes : t.stack.frames = t.stack.top :: caller.frames := by
    rw [caller_eq hc, CallStack.frames]
  have hmem : ∀ f ∈ caller.frames, f ∈ t.stack.frames := fun f hf => by simp [hframes, hf]
  have hordered := h.ordered
  rw [hframes] at hordered
  refine { ordered := (List.pairwise_cons.1 hordered).2, ids := ?_, entries := ?_,
           global := h.global, returns := ?_ }
  · exact fun f hf => h.ids f (hmem f hf)
  · exact fun f hf => h.entries f (hmem f hf)
  · intro f hf item hi
    obtain ⟨c, hc, hlt, hlive, hkept⟩ := h.returns f (hmem f hf) item hi
    rw [hframes, List.map_cons, List.mem_cons, not_or] at hlive
    exact ⟨c, hc, hlt, hlive.2, hkept⟩

-- The key is that of a call that just ended, so no frame that goes on had a result kept under it.
theorem Invariant.popWith {t : Tracer} (h : t.Invariant) {caller : CallStack}
    (hc : t.stack.caller? = some caller) {item : TraceItem} (hs : item.source.isVolatile = false) :
    Invariant (({ t with stack := caller }.writeGlobal (.of t.stack.top.callId .result) item).onTop
      fun f => { f with calleeReturn := some ⟨item.value, .of t.stack.top.callId .result⟩ }) := by
  have hframes : t.stack.frames = t.stack.top :: caller.frames := by
    rw [caller_eq hc, CallStack.frames]
  have hp := h.pop hc
  have hlive : t.stack.top.callId ∉ caller.frames.map Frame.callId := by
    have hordered := h.ordered
    rw [hframes, List.map_cons, List.pairwise_cons] at hordered
    exact fun hm => Nat.lt_irrefl _ (hordered.1 _ hm)
  have hwritten : Invariant ({ t with stack := caller }.writeGlobal
      (.of t.stack.top.callId .result) item) := by
    refine { hp with global := ?_, returns := ?_ }
    · intro key i hk
      simp only [writeGlobal, Table.find?_insert] at hk
      split at hk
      · next e =>
        cases hk
        exact ⟨e ▸ rfl, hs⟩
      · exact hp.global key i hk
    · intro f hf i hi
      obtain ⟨c, hc, hlt, hnot, hkept⟩ := h.returns f (hframes ▸ List.mem_cons_of_mem _ hf) i hi
      rw [hframes, List.map_cons, List.mem_cons, not_or] at hnot
      refine ⟨c, hc, hlt, hnot.2, ?_⟩
      rw [writeGlobal, Table.find?_insert_ne]
      · exact hkept
      · exact fun e => hnot.1 (by simpa [TraceKey.of] using e.symm)
  refine (keeps_onTop rfl (fun h => h.entries caller.top (top_mem_frames _)) (fun _ i hi => ?_) hwritten).1
  cases hi
  exact ⟨_, rfl, (h.ids t.stack.top t.top_mem_frames).2, hlive, item,
    Table.find?_insert_self _ _ _, rfl⟩

theorem popFrame_leads (t : Tracer) : Leads Keeps popFrame t := by
  refine leads_keeps fun h => Leads.get_bind ?_
  split
  · exact .throw _
  · next caller hc =>
    split
    · refine .set fun _ => ?_
      have hclear := keeps_clearReturn _ (h.pop hc)
      exact ⟨hclear.1, hclear.2.trans (congrArg Frame.callId (bottom_caller hc))⟩
    · next returned hr =>
      have hs := (h.entries t.stack.top t.top_mem_frames .result returned hr).2
      refine Leads.bind ((lasting_adds h hs).mono keeps_of_adds) fun source u hy => .modify ?_
      have hadds := lasting_adds h hs
      rw [Leads, hy] at hadds
      obtain ⟨g, rfl, hext⟩ := hadds
      have hadded : Invariant { t with global := g } := h.adds ⟨g, rfl, hext⟩
      refine fun _ => ⟨hadded.popWith hc (volatile_of_yields_lasting h hs hy), ?_⟩
      rw [bottom_onTop _ rfl]
      exact congrArg Frame.callId (bottom_caller hc)

end Tracer

end CoercionTrace
