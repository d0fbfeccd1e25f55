import CoercionTrace.Proofs.Trace.Grounded

/-!
# What a history follows

`CallStack.chase` drops each entry that it met, so that it ends. Main statements: it meets the
entries that one meets who only remembers where he has been (`history_eq_ok_iff`), each of them once
(`Follows.nodup`), and it fails exactly where the bottom frame is asked for an argument
(`history_eq_error_iff`).
-/

namespace CoercionTrace

def Hop.key (hop : Hop) : TraceKey := .of hop.callId hop.slot

abbrev Site := CallStack × Slot

namespace Site

def item? (p : Site) : Option TraceItem := p.1.top.entries.find? p.2

def key (p : Site) : TraceKey := .of p.1.top.callId p.2

end Site

namespace CallStack

/-- Why a history ends: nothing is recorded, an entry was met before, or its source is no slot of a
running call. -/
inductive ChainEnd
  | missing (p : Site)
  | repeated (p : Site)
  | beyond (source : TraceKey)

def ChainEnd.key : ChainEnd → TraceKey
  | missing p => p.key
  | repeated p => p.key
  | beyond source => source

inductive Follows : List Site → Site → List Hop → ChainEnd → Prop
  | missing {met p} : p.item? = none → Follows met p [] (.missing p)
  | repeated {met p item} : p.item? = some item → p ∈ met → Follows met p [] (.repeated p)
  | beyond {met p item} : p.item? = some item → p ∉ met → item.source.isVolatile = false →
      Follows met p [⟨p.1.top.callId, p.2, item.value⟩] (.beyond item.source)
  | further {met p item t hops ending} : p.item? = some item → p ∉ met →
      item.source.isVolatile = true → p.1.owner item.source.slot = .ok t →
      Follows (p :: met) (t, item.source.slot) hops ending →
      Follows met p (⟨p.1.top.callId, p.2, item.value⟩ :: hops) ending

theorem Follows.unique {met p hops hops' ending ending'} (h : Follows met p hops ending)
    (h' : Follows met p hops' ending') : hops = hops' ∧ ending = ending' := by
  induction h generalizing hops' ending' with
  | missing hnone => cases h' <;> simp_all
  | repeated hitem hmem => cases h' <;> simp_all
  | beyond hitem hmem hsource => cases h' <;> simp_all
  | further hitem hmem hsource howner _ ih =>
    cases h' with
    | further hitem' _ _ howner' h' =>
      obtain rfl := Option.some.inj (hitem.symm.trans hitem')
      obtain rfl := Except.ok.inj (howner.symm.trans howner')
      obtain ⟨rfl, rfl⟩ := ih h'
      exact ⟨rfl, rfl⟩
    | _ => simp_all

inductive Refers (s : CallStack) (slot : Slot) : CallStack → Slot → Prop
  | start : Refers s slot s slot
  | next {u t : CallStack} {k : Slot} {item : TraceItem} : Refers s slot u k → u.owner k = .ok t →
      t.top.entries.find? k = some item → item.source.isVolatile = true →
      Refers s slot t item.source.slot

/-- `u` is `s` without the entries of its innermost call that were met. Nothing was met further
out. -/
structure Drops (met : List Site) (s u : CallStack) : Prop where
  below : u.below = s.below
  callId : u.top.callId = s.top.callId
  entries : ∀ slot, u.top.entries.find? slot =
    if (s, slot) ∈ met then none else s.top.entries.find? slot
  inner : ∀ p ∈ met, s.below.length ≤ p.1.below.length

theorem drops_nil (s : CallStack) : Drops [] s s := ⟨rfl, rfl, by simp, by simp⟩

theorem Drops.without {met s u} (h : Drops met s u) (slot : Slot) :
    Drops ((s, slot) :: met) s (u.without slot) := by
  refine ⟨h.below, h.callId, fun k => ?_, ?_⟩
  · by_cases hk : k = slot
    · subst hk
      simp [CallStack.without]
    · simp only [CallStack.without, Table.find?_erase_ne _ (Ne.symm hk), h.entries,
        List.mem_cons, Prod.mk.injEq, true_and, hk, false_or]
  · exact List.forall_mem_cons.2 ⟨Nat.le_refl _, h.inner⟩

-- The caller of the innermost call is as it was: whatever was dropped is further in.
theorem Drops.owner {met s u} (h : Drops met s u) (slot : Slot) :
    (∃ e, s.owner slot = .error e ∧ u.owner slot = .error e) ∨
      ∃ t v, s.owner slot = .ok t ∧ u.owner slot = .ok v ∧ Drops met t v := by
  cases slot with
  | argument i =>
    obtain ⟨top, below⟩ := s
    obtain ⟨top', below'⟩ := u
    obtain rfl : below' = below := h.below
    cases below' with
    | nil => exact .inl ⟨.noCaller i, rfl, rfl⟩
    | cons f rest =>
      refine .inr ⟨⟨f, rest⟩, ⟨f, rest⟩, rfl, rfl, rfl, rfl, fun k => ?_, fun p hp => ?_⟩
      · rw [if_neg]
        intro hm
        exact Nat.not_succ_le_self _ (h.inner _ hm)
      · exact Nat.le_trans (Nat.le_succ _) (h.inner p hp)
  | _ => exact .inr ⟨s, u, rfl, rfl, h⟩

theorem Drops.find? {met s u} (h : Drops met s u) {slot : Slot} {item : TraceItem}
    (hf : u.top.entries.find? slot = some item) :
    Site.item? (s, slot) = some item ∧ (s, slot) ∉ met := by
  rw [h.entries] at hf
  split at hf
  · cases hf
  · exact ⟨hf, by assumption⟩

theorem follows_of_chase {u : CallStack} {slot : Slot} (history : List Hop × TraceKey)
    (hc : u.chase slot = .ok history) (met : List Site) (s : CallStack) (h : Drops met s u) :
    ∃ ending, Follows met (s, slot) history.1 ending ∧ ending.key = history.2 := by
  fun_induction chase u slot generalizing met s history with
  | case1 u slot hf =>
    cases hc
    have hkey : TraceKey.of u.top.callId slot = Site.key (s, slot) := by rw [h.callId]; rfl
    rw [h.entries] at hf
    split at hf
    · next hm =>
      cases hi : Site.item? (s, slot) with
      | none => exact ⟨_, .missing hi, hkey.symm⟩
      | some item => exact ⟨_, .repeated hi hm, hkey.symm⟩
    · exact ⟨_, .missing hf, hkey.symm⟩
  | case2 => cases hc
  | case3 => cases hc
  | case4 u slot item hf hop hv t ho hops terminal he ih =>
    cases hc
    obtain ⟨hitem, hmem⟩ := h.find? hf
    obtain ⟨e, -, herror⟩ | ⟨t', v, hok, hv', hdrops⟩ := (h.without slot).owner item.source.slot
    · rw [herror] at ho
      cases ho
    · obtain rfl := Except.ok.inj (ho.symm.trans hv')
      obtain ⟨ending, hfollows, hkey⟩ := ih (hops, terminal) he _ _ hdrops
      refine ⟨ending, ?_, hkey⟩
      have := Follows.further hitem hmem hv hok hfollows
      rwa [← show u.top.callId = s.top.callId from h.callId] at this
  | case5 u slot item hf hop hv =>
    cases hc
    obtain ⟨hitem, hmem⟩ := h.find? hf
    refine ⟨.beyond item.source, ?_, rfl⟩
    have := Follows.beyond hitem hmem (by simpa using hv)
    rwa [← show u.top.callId = s.top.callId from h.callId] at this

theorem refers_of_chase_error {u : CallStack} {slot : Slot} {e : TraceError}
    (hc : u.chase slot = .error e) {met s} (h : Drops met s u) {s₀ : CallStack} {k₀ : Slot}
    {r : CallStack} (hr : Refers s₀ k₀ r slot) (ho : r.owner slot = .ok s) :
    ∃ t i, Refers s₀ k₀ t (.argument i) ∧ t.below = [] := by
  fun_induction chase u slot generalizing met s r with
  | case1 => cases hc
  | case2 u slot item hf hv e' ho' =>
    obtain ⟨hitem, -⟩ := h.find? hf
    obtain ⟨e, herror, -⟩ | ⟨t', v, hok, hv', -⟩ := (h.without slot).owner item.source.slot
    · obtain ⟨hb, i, hi⟩ := owner_error herror
      exact ⟨s, i, hi ▸ .next hr ho hitem hv, hb⟩
    · rw [hv'] at ho'
      cases ho'
  | case3 u slot item hf hv t ho' e' he ih =>
    obtain ⟨hitem, -⟩ := h.find? hf
    obtain ⟨e, -, herror⟩ | ⟨t', v, hok, hv', hdrops⟩ := (h.without slot).owner item.source.slot
    · rw [herror] at ho'
      cases ho'
    · obtain rfl := Except.ok.inj (ho'.symm.trans hv')
      cases hc
      exact ih he hdrops (.next hr ho hitem hv) hok
  | case4 => cases hc
  | case5 => cases hc

/-- Following the source of an entry at a site, one finds a site that is in `sites`, or empty. -/
def Goes (sites : List Site) (p : Site) : Prop :=
  ∀ item, p.item? = some item → item.source.isVolatile = true →
    ∃ t, p.1.owner item.source.slot = .ok t ∧
      ((t, item.source.slot) ∈ sites ∨ Site.item? (t, item.source.slot) = none)

theorem Goes.mono {sites sites' : List Site} (h : sites ⊆ sites') {p : Site}
    (hp : Goes sites p) : Goes sites' p := by
  intro item hitem hv
  obtain ⟨t, ho, hin⟩ := hp item hitem hv
  exact ⟨t, ho, hin.imp_left (@h _)⟩

theorem Follows.closed {met p hops ending} (h : Follows met p hops ending) :
    ∃ sites, (p ∈ sites ++ met ∨ p.item? = none) ∧ ∀ q ∈ sites, Goes (sites ++ met) q := by
  induction h with
  | missing hnone => exact ⟨[], .inr hnone, by simp⟩
  | repeated _ hmem => exact ⟨[], .inl hmem, by simp⟩
  | @beyond met p item hitem _ hsource =>
    refine ⟨[p], .inl List.mem_cons_self, ?_⟩
    intro q hq item' hitem' hv
    obtain rfl := List.mem_singleton.1 hq
    obtain rfl := Option.some.inj (hitem.symm.trans hitem')
    simp [hsource] at hv
  | @further met p item t hops ending hitem _ hv howner _ ih =>
    obtain ⟨sites, hin, hgoes⟩ := ih
    have hsub : sites ++ p :: met ⊆ p :: sites ++ met := by simp
    refine ⟨p :: sites, .inl List.mem_cons_self, ?_⟩
    intro q hq
    rcases List.mem_cons.1 hq with rfl | hq
    · intro item' hitem' _
      obtain rfl := Option.some.inj (hitem.symm.trans hitem')
      exact ⟨t, howner, hin.imp_left (@hsub _)⟩
    · exact (hgoes q hq).mono hsub

theorem Follows.owner_of_refers {s t : CallStack} {slot : Slot} {hops ending}
    (ho : s.owner slot = .ok t) (h : Follows [] (t, slot) hops ending) {u : CallStack} {k : Slot}
    (hr : Refers s slot u k) : ∃ v, u.owner k = .ok v := by
  obtain ⟨sites, hin, hgoes⟩ := h.closed
  rw [List.append_nil] at hin hgoes
  suffices ∃ v, u.owner k = .ok v ∧ ((v, k) ∈ sites ∨ Site.item? (v, k) = none) from
    this.imp fun _ h => h.1
  induction hr with
  | start => exact ⟨t, ho, hin⟩
  | next _ howner hitem hv ih =>
    obtain ⟨v, hok, hv'⟩ := ih
    obtain rfl := Except.ok.inj (howner.symm.trans hok)
    rcases hv' with hmem | hnone
    · exact hgoes _ hmem _ hitem hv
    · rw [Site.item?, hitem] at hnone
      cases hnone

theorem history_eq_ok_iff {s : CallStack} {slot : Slot} {hops : List Hop} {terminal : TraceKey} :
    s.history slot = .ok (hops, terminal) ↔
      ∃ t ending, s.owner slot = .ok t ∧ Follows [] (t, slot) hops ending ∧
        ending.key = terminal := by
  unfold history
  cases ho : s.owner slot with
  | error e => simp
  | ok t =>
    constructor
    · intro hc
      obtain ⟨ending, hfollows, hkey⟩ := follows_of_chase _ hc [] t (drops_nil t)
      exact ⟨t, ending, rfl, hfollows, hkey⟩
    · rintro ⟨_, ending, ⟨⟩, hfollows, rfl⟩
      cases hc : t.chase slot with
      | error e =>
        obtain ⟨u, i, hr, hb⟩ := refers_of_chase_error hc (drops_nil t) .start ho
        obtain ⟨v, hv⟩ := hfollows.owner_of_refers ho hr
        rw [owner, caller?_eq_none.2 hb] at hv
        cases hv
      | ok history =>
        obtain ⟨hops', terminal'⟩ := history
        obtain ⟨ending', hfollows', rfl⟩ := follows_of_chase _ hc [] t (drops_nil t)
        obtain ⟨rfl, rfl⟩ := hfollows.unique hfollows'
        exact hc

theorem history_eq_error_iff {s : CallStack} {slot : Slot} :
    (∃ e, s.history slot = .error e) ↔
      ∃ u i, Refers s slot u (.argument i) ∧ u.below = [] := by
  constructor
  · rintro ⟨e, hc⟩
    unfold history at hc
    cases ho : s.owner slot with
    | error e =>
      obtain ⟨hb, i, rfl⟩ := owner_error ho
      exact ⟨s, i, .start, hb⟩
    | ok t =>
      rw [ho] at hc
      exact refers_of_chase_error hc (drops_nil t) .start ho
  · rintro ⟨u, i, hr, hb⟩
    cases hc : s.history slot with
    | error e => exact ⟨e, rfl⟩
    | ok history =>
      obtain ⟨hops, terminal⟩ := history
      obtain ⟨t, ending, ho, hfollows, -⟩ := history_eq_ok_iff.1 hc
      obtain ⟨v, hv⟩ := hfollows.owner_of_refers ho hr
      rw [owner, caller?_eq_none.2 hb] at hv
      cases hv

end CallStack

end CoercionTrace
