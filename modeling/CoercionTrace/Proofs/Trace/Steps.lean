import CoercionTrace.Proofs.Trace.Promotion

/-!
# What a step of a tracer does

A record, the beginning of a call and its end each do one of a few things: what they are when they
succeed (`recorded_of_yields`, `pushFrame_cases`, `left_of_yields`), and that a record or the end of a
call does nothing when it fails (`eq_of_record_fails`, `eq_of_popFrame_fails`). Whatever is copied to
the global table on the way is held by a call that runs (`chase_holds`).
-/

namespace CoercionTrace

/-- The second of two tables has an entry wherever the first has one, and where it has another, that
one is allowed. -/
structure Grows (allowed : TraceKey → Value → Prop) (before after : Table TraceKey TraceItem) :
    Prop where
  kept : ∀ key, before.find? key ≠ none → after.find? key ≠ none
  items : ∀ key item, after.find? key = some item →
    before.find? key = some item ∨ allowed key item.value

namespace Grows

variable {allowed allowed' : TraceKey → Value → Prop} {g g₁ g₂ g₃ : Table TraceKey TraceItem}

theorem refl (g : Table TraceKey TraceItem) : Grows allowed g g := ⟨fun _ h => h, fun _ _ h => .inl h⟩

theorem trans (h₁ : Grows allowed g₁ g₂) (h₂ : Grows allowed g₂ g₃) : Grows allowed g₁ g₃ := by
  refine ⟨fun key h => h₂.kept key (h₁.kept key h), fun key item h => ?_⟩
  rcases h₂.items key item h with h | h
  · exact h₁.items key item h
  · exact .inr h

theorem mono (h : Grows allowed g₁ g₂) (hsub : ∀ key value, allowed key value → allowed' key value) :
    Grows allowed' g₁ g₂ :=
  ⟨h.kept, fun key item hi => (h.items key item hi).imp_right (hsub key item.value)⟩

theorem find?_eq (h : Grows allowed g₁ g₂) {key : TraceKey} (hnot : ∀ value, ¬ allowed key value) :
    g₂.find? key = g₁.find? key := by
  cases hafter : g₂.find? key with
  | some item => exact ((h.items key item hafter).resolve_right (hnot _)).symm
  | none =>
    cases hbefore : g₁.find? key with
    | none => rfl
    | some item => exact absurd hafter (h.kept key (by simp [hbefore]))

theorem insert (g : Table TraceKey TraceItem) {key : TraceKey} {item : TraceItem}
    (h : allowed key item.value) : Grows allowed g (g.insert key item) := by
  constructor
  · intro k hk
    rw [Table.find?_insert]
    split
    · simp
    · exact hk
  · intro k i hi
    rw [Table.find?_insert] at hi
    split at hi
    · next e =>
      cases hi
      exact .inr (e ▸ h)
    · exact .inl hi

end Grows

namespace CallStack

def Holds (s : CallStack) (key : TraceKey) (value : Value) : Prop :=
  ∃ f ∈ s.frames, ∃ slot item, f.entries.find? slot = some item ∧
    key = .of f.callId slot ∧ value = item.value

theorem Holds.of_suffix {s t : CallStack} (h : t.frames <:+ s.frames) {key : TraceKey} {value : Value}
    (hv : t.Holds key value) : s.Holds key value := by
  obtain ⟨f, hf, hrest⟩ := hv
  exact ⟨f, h.subset hf, hrest⟩

theorem Holds.of_without {s : CallStack} {slot : Slot} {key : TraceKey} {value : Value}
    (h : (s.without slot).Holds key value) : s.Holds key value := by
  obtain ⟨f, hf, k, item, hfind, hkey, hvalue⟩ := h
  rcases List.mem_cons.1 hf with rfl | hf
  · exact ⟨s.top, List.mem_cons_self, k, item, Table.find?_of_find?_erase hfind, hkey, hvalue⟩
  · exact ⟨f, List.mem_cons_of_mem _ hf, k, item, hfind, hkey, hvalue⟩

theorem chase_holds (s : CallStack) (slot : Slot) (history : List Hop × TraceKey)
    (hc : s.chase slot = .ok history) : ∀ hop ∈ history.1, s.Holds hop.key hop.value := by
  fun_induction chase s slot generalizing history with
  | case1 =>
    cases hc
    simp
  | case2 => cases hc
  | case3 => cases hc
  | case4 s slot item hf hop hv t ho hops terminal he ih =>
    cases hc
    refine List.forall_mem_cons.2 ⟨⟨s.top, List.mem_cons_self, slot, item, hf, rfl, rfl⟩, ?_⟩
    exact fun hop hm => Holds.of_without (.of_suffix (suffix_of_owner ho) (ih _ he hop hm))
  | case5 s slot item hf hop hv =>
    cases hc
    intro hop hm
    obtain rfl := List.mem_singleton.1 hm
    exact ⟨s.top, List.mem_cons_self, slot, item, hf, rfl, rfl⟩

theorem history_holds {s : CallStack} {slot : Slot} {history : List Hop × TraceKey}
    (hc : s.history slot = .ok history) : ∀ hop ∈ history.1, s.Holds hop.key hop.value := by
  unfold CallStack.history at hc
  split at hc
  · cases hc
  · next t ho =>
    exact fun hop hm => .of_suffix (suffix_of_owner ho) (chase_holds t slot history hc hop hm)

end CallStack

namespace Tracer

theorem copyHops_grows {allowed : TraceKey → Value → Prop} {hops : List Hop}
    (h : ∀ hop ∈ hops, allowed hop.key hop.value) (last : TraceKey) (g : Table TraceKey TraceItem) :
    Grows allowed g (copyHops hops last g).2 := by
  induction hops with
  | nil => exact .refl g
  | cons hop rest ih =>
    obtain ⟨hhop, hrest⟩ := List.forall_mem_cons.1 h
    exact (ih hrest).trans (.insert _ hhop)

theorem yields_keep {t t' : Tracer} {key : TraceKey}
    {history : Except TraceError (List Hop × TraceKey)} (h : Yields (keep history) t key t') :
    ∃ hops last, history = .ok (hops, last) ∧ key = (copyHops hops last t.global).1 ∧
      t' = { t with global := (copyHops hops last t.global).2 } := by
  unfold keep at h
  cases history with
  | error e => cases h
  | ok p =>
    obtain ⟨hops, last⟩ := p
    cases h
    exact ⟨hops, last, rfl, rfl, rfl⟩

theorem eq_of_keep_fails {t t' : Tracer} {e : TraceError}
    {history : Except TraceError (List Hop × TraceKey)} (h : Fails (keep history) t e t') :
    t' = t := by
  unfold keep at h
  cases history with
  | error e' => exact (Fails.throw_iff.1 h).2
  | ok p => cases h

/-- The entries behind a source, and the key at which they end. A source that stays valid has none. -/
def behind (t : Tracer) (source : TraceKey) : Except TraceError (List Hop × TraceKey) :=
  if source.isVolatile then t.stack.history source.slot else .ok ([], source)

theorem behind_holds {t : Tracer} {source : TraceKey} {history : List Hop × TraceKey}
    (h : t.behind source = .ok history) : ∀ hop ∈ history.1, t.stack.Holds hop.key hop.value := by
  unfold behind at h
  split at h
  · exact CallStack.history_holds h
  · cases h
    simp

theorem run_lasting (t : Tracer) (source : TraceKey) :
    (lasting source).run t = (keep (t.behind source)).run t := by
  unfold lasting behind
  split <;> rfl

def kept (target : TraceKey) (value : Value) : Option Value :=
  if value.isSuspect || isArgument target then some value else none

inductive Recorded (t : Tracer) (target : TraceKey) (value : Value) (source : TraceKey) :
    Tracer → Prop
  | nothing : (target.isTraced = true → target.isHere = false ∧ value.isSuspect = false) →
      Recorded t target value source t
  | erased : target.isTraced = true → target.isHere = true → kept target value = none →
      Recorded t target value source (t.eraseLocal target.slot)
  | here : target.isTraced = true → target.isHere = true → kept target value = some value →
      Recorded t target value source (t.writeLocal target.slot ⟨value, t.resolve source⟩)
  | outside {hops : List Hop} {last : TraceKey} : target.isTraced = true → target.isHere = false →
      value.isSuspect = true → t.behind (t.resolve source) = .ok (hops, last) →
      Recorded t target value source { t with
        global := (copyHops hops last t.global).2.insert target
          ⟨value, (copyHops hops last t.global).1⟩ }

theorem isArgument_of_not_here {target : TraceKey} (h : target.isHere = false) :
    isArgument target = false := by
  obtain ⟨scope, slot⟩ := target
  cases scope with
  | here => cases h
  | identity id => rfl

theorem recorded_of_yields {t t' : Tracer} {target source : TraceKey} {value : Value}
    (h : Yields (record target value source) t () t') : Recorded t target value source t' := by
  unfold record at h
  split at h
  · next htraced =>
    split at h
    · next hkept =>
      rw [Yields.get_bind_iff] at h
      split at h
      · next hhere =>
        obtain rfl := Yields.modify_iff.1 h
        exact .here htraced hhere (if_pos hkept)
      · next hhere =>
        rw [Bool.not_eq_true] at hhere
        rw [isArgument_of_not_here hhere, Bool.or_false] at hkept
        obtain ⟨key, u, hlasting, hwrite⟩ := Yields.bind_iff.1 h
        obtain rfl := Yields.modify_iff.1 hwrite
        rw [Yields, run_lasting] at hlasting
        obtain ⟨hops, last, hbehind, rfl, rfl⟩ := yields_keep hlasting
        exact .outside htraced hhere hkept hbehind
    · next hkept =>
      split at h
      · next hhere =>
        obtain rfl := Yields.modify_iff.1 h
        exact .erased htraced hhere (if_neg hkept)
      · next hhere =>
        obtain ⟨-, rfl⟩ := Yields.pure_iff.1 h
        rw [Bool.or_eq_true, not_or, Bool.not_eq_true] at hkept
        exact .nothing fun _ => ⟨by simpa using hhere, hkept.1⟩
  · next htraced =>
    obtain ⟨-, rfl⟩ := Yields.pure_iff.1 h
    exact .nothing fun ht => absurd ht htraced

theorem eq_of_record_fails {t t' : Tracer} {target source : TraceKey} {value : Value}
    {e : TraceError} (h : Fails (record target value source) t e t') : t' = t := by
  unfold record at h
  split at h
  · split at h
    · rw [Fails.get_bind_iff] at h
      split at h
      · exact (Fails.not_modify h).elim
      · rcases Fails.bind_iff.1 h with h | ⟨_, _, -, h⟩
        · rw [Fails, run_lasting] at h
          exact eq_of_keep_fails h
        · exact (Fails.not_modify h).elim
    · split at h
      · exact (Fails.not_modify h).elim
      · exact (Fails.not_pure h).elim
  · exact (Fails.not_pure h).elim

/-- A parameter of a call that is about to begin, under the identity of that call, with what the
innermost call of a stack passes for it. -/
def IsParameter (s : CallStack) (callId : TraceId) (key : TraceKey) (value : Value) : Prop :=
  (∃ name, key = .of callId (.name name)) ∧
    (value = .undefined ∨ ∃ i item, s.top.entries.find? (.argument i) = some item ∧ value = item.value)

/-- What the table may show once a call with that identity was entered, or was not for an error. -/
def Enters (s : CallStack) (callId : TraceId) (key : TraceKey) (value : Value) : Prop :=
  s.Holds key value ∨ IsParameter s callId key value

theorem holds_clearPending {t : Tracer} {key : TraceKey} {value : Value}
    (h : t.clearPending.stack.Holds key value) : t.stack.Holds key value := by
  obtain ⟨f, hf, hrest⟩ := h
  rcases List.mem_cons.1 hf with rfl | hf
  · exact ⟨t.stack.top, List.mem_cons_self, hrest⟩
  · exact ⟨f, List.mem_cons_of_mem _ hf, hrest⟩

/-- A parameter that nested functions read, under the identity of the call that is being entered. -/
def Publishable (t : Tracer) (arguments : Nat) (captured : List String)
    (parameters : List (Option String)) (key : TraceKey) (value : Value) : Prop :=
  ∃ name i item, name ∈ captured ∧ parameters[i]? = some (some name) ∧ t.Gives arguments i item ∧
    key = .of t.nextId (.name name) ∧ value = item.value

theorem Publishable.append {t : Tracer} {arguments : Nat} {captured : List String}
    {parameters : List (Option String)} {key : TraceKey} {value : Value}
    (h : t.Publishable arguments captured parameters key value) (rest : List (Option String)) :
    t.Publishable arguments captured (parameters ++ rest) key value := by
  obtain ⟨name, i, item, hcaptured, hposition, hrest⟩ := h
  refine ⟨name, i, item, hcaptured, ?_, hrest⟩
  rw [List.getElem?_append_left (lt_of_getElem? hposition)]
  exact hposition

theorem Publishable.isParameter {t : Tracer} {arguments : Nat} {captured : List String}
    {parameters : List (Option String)} {key : TraceKey} {value : Value}
    (h : t.Publishable arguments captured parameters key value) :
    IsParameter t.stack t.nextId key value := by
  obtain ⟨name, i, item, -, -, hgives, rfl, rfl⟩ := h
  refine ⟨⟨name, rfl⟩, ?_⟩
  cases hgives with
  | omitted => exact .inl rfl
  | suspect _ hfind _ => exact .inr ⟨i, _, hfind, rfl⟩

theorem Binds.grows {t : Tracer} {arguments : Nat} {captured : List String}
    {parameters : List (Option String)} {entries : Table Slot TraceItem}
    {g : Table TraceKey TraceItem} (h : t.Binds arguments captured parameters entries g) :
    Grows (fun key value => t.stack.Holds key value ∨
      t.Publishable arguments captured parameters key value) t.global g := by
  induction h with
  | nil => exact .refl _
  | skipped _ _ ih => exact ih.mono fun _ _ => Or.imp_right fun h => h.append _
  | kept _ _ _ ih => exact ih.mono fun _ _ => Or.imp_right fun h => h.append _
  | @published ps _ _ _ name item _ hpassed hcaptured hpublishes ih =>
    refine (ih.mono fun _ _ => Or.imp_right fun h => h.append _).trans ?_
    have hparameter : t.Publishable arguments captured (ps ++ [some name])
        (.of t.nextId (.name name)) item.value :=
      ⟨name, _, item, hcaptured, by simp, passed?_eq_some_iff.1 hpassed, rfl, rfl⟩
    cases hpublishes with
    | omitted => exact .insert _ (.inr hparameter)
    | passed _ hc =>
      refine Grows.trans (copyHops_grows (fun hop hm => .inl ?_) _ _) (.insert _ (.inr hparameter))
      exact holds_clearPending (CallStack.chase_holds _ _ _ hc hop hm)

theorem Binds.enters {t : Tracer} {arguments : Nat} {captured : List String}
    {parameters : List (Option String)} {entries : Table Slot TraceItem}
    {g : Table TraceKey TraceItem} (h : t.Binds arguments captured parameters entries g) :
    Grows (Enters t.stack t.nextId) t.global g :=
  h.grows.mono fun _ _ => Or.imp_right Publishable.isParameter

theorem pushFrame_grows (t : Tracer) (parameters : List (Option String)) (captured : List String) :
    Grows (fun key value => t.stack.Holds key value ∨
      ∃ arguments, t.stack.top.pendingArguments = some arguments ∧
        t.Publishable arguments captured parameters key value)
      t.global ((pushFrame parameters captured).run t).2.global := by
  have hmono : ∀ {n} {ps : List (Option String)} {g : Table TraceKey TraceItem},
      t.stack.top.pendingArguments = some n → (∀ key value,
        t.Publishable n captured ps key value → t.Publishable n captured parameters key value) →
      Grows (fun key value => t.stack.Holds key value ∨ t.Publishable n captured ps key value)
        t.global g →
      Grows (fun key value => t.stack.Holds key value ∨
        ∃ arguments, t.stack.top.pendingArguments = some arguments ∧
          t.Publishable arguments captured parameters key value) t.global g :=
    fun hpending hsub hg => hg.mono fun key value => Or.imp_right fun h =>
      ⟨_, hpending, hsub key value h⟩
  rcases t.pushFrame_outcome parameters captured with
    ⟨-, hy⟩ | ⟨n, hpending, ⟨entries, g, hbinds, hy⟩ | ⟨e, g, hstops, hf⟩⟩
  · rw [show (pushFrame parameters captured).run t = _ from hy]
    exact .refl _
  · rw [show (pushFrame parameters captured).run t = _ from hy]
    exact hmono hpending (fun _ _ h => h) hbinds.grows
  · rw [show (pushFrame parameters captured).run t = _ from hf]
    obtain ⟨before, name, after, _, _, rfl, -, hbinds, -⟩ := hstops
    exact hmono hpending (fun _ _ h => h.append _) hbinds.grows

def Named (entries : Table Slot TraceItem) : Prop :=
  ∀ slot item, entries.find? slot = some item → ∃ name, slot = .name name

theorem named_empty : Named .empty := fun _ _ h => by simp at h

theorem Binds.named {t : Tracer} {arguments : Nat} {captured : List String}
    {parameters : List (Option String)} {entries : Table Slot TraceItem}
    {g : Table TraceKey TraceItem} (h : t.Binds arguments captured parameters entries g) :
    Named entries := fun _ _ hi => by
  obtain ⟨name, _, hname, -⟩ := h.find?_iff.1 hi
  exact ⟨name, hname⟩

structure Begins (t : Tracer) (entries : Table Slot TraceItem) (g : Table TraceKey TraceItem) :
    Prop where
  named : Named entries
  grows : Grows (Enters t.stack t.nextId) t.global g
  /-- Where no call was announced nothing is known of the arguments. -/
  unannounced : t.stack.top.pendingArguments = none → entries = .empty

theorem pushFrame_cases (t : Tracer) (parameters : List (Option String)) (captured : List String) :
    (∃ entries g, t.Begins entries g ∧
      Yields (pushFrame parameters captured) t t.nextId (t.begun entries g)) ∨
    ∃ e g, Grows (Enters t.stack t.nextId) t.global g ∧
      Fails (pushFrame parameters captured) t e (t.taken g) := by
  rcases t.pushFrame_outcome parameters captured with
    ⟨-, hy⟩ | ⟨n, hpending, ⟨entries, g, hbinds, hy⟩ | ⟨e, g, hstops, hf⟩⟩
  · exact .inl ⟨_, _, ⟨named_empty, .refl _, fun _ => rfl⟩, hy⟩
  · exact .inl ⟨entries, g, ⟨hbinds.named, hbinds.enters, by simp [hpending]⟩, hy⟩
  · obtain ⟨_, _, _, _, _, -, -, hbinds, -⟩ := hstops
    exact .inr ⟨e, g, hbinds.enters, hf⟩

inductive Left (t : Tracer) : Tracer → Prop
  | silent {caller : CallStack} : t.stack.caller? = some caller → t.localItem? .result = none →
      Left t { t with stack := caller }.clearReturn
  | returned {caller : CallStack} {item : TraceItem} {hops : List Hop} {last : TraceKey} :
      t.stack.caller? = some caller → t.localItem? .result = some item →
      t.behind item.source = .ok (hops, last) →
      Left t (({ t with stack := caller, global := (copyHops hops last t.global).2 }.writeGlobal
        (.of t.stack.top.callId .result) ⟨item.value, (copyHops hops last t.global).1⟩).onTop
          fun f => { f with
            calleeReturn := some ⟨item.value, .of t.stack.top.callId .result⟩ })

theorem left_of_yields {t t' : Tracer} (h : Yields popFrame t () t') : Left t t' := by
  unfold popFrame at h
  rw [Yields.get_bind_iff] at h
  split at h
  · exact (Yields.not_throw h).elim
  · next caller hcaller =>
    split at h
    · next hresult =>
      obtain rfl := Yields.set_iff.1 h
      exact .silent hcaller hresult
    · next item hresult =>
      obtain ⟨key, u, hlasting, hwrite⟩ := Yields.bind_iff.1 h
      obtain rfl := Yields.modify_iff.1 hwrite
      rw [Yields, run_lasting] at hlasting
      obtain ⟨hops, last, hbehind, rfl, rfl⟩ := yields_keep hlasting
      exact .returned hcaller hresult hbehind

theorem eq_of_popFrame_fails {t t' : Tracer} {e : TraceError} (h : Fails popFrame t e t') :
    t' = t := by
  unfold popFrame at h
  rw [Fails.get_bind_iff] at h
  split at h
  · exact (Fails.throw_iff.1 h).2
  · split at h
    · exact (Fails.not_set h).elim
    · rcases Fails.bind_iff.1 h with h | ⟨_, _, -, h⟩
      · rw [Fails, run_lasting] at h
        exact eq_of_keep_fails h
      · exact (Fails.not_modify h).elim

end Tracer

end CoercionTrace
