import CoercionTrace.Proofs.Trace.Chain

/-!
# What is copied to the global table

A value that flows to where others can reach it takes its local history along. The entries that were
followed are copied, each under its own key with the next one as its source (`copyHops_linked`), and
nothing else changes (`find?_copyHops`).
-/

namespace CoercionTrace

open CallStack

def Linked (g : Table TraceKey TraceItem) (last : TraceKey) : TraceKey → List Hop → Prop
  | key, [] => key = last
  | key, hop :: rest => key = hop.key ∧
      ∃ next, g.find? hop.key = some ⟨hop.value, next⟩ ∧ Linked g last next rest

theorem Linked.insert {g : Table TraceKey TraceItem} {last k : TraceKey} {hops : List Hop}
    (hk : k ∉ hops.map Hop.key) (item : TraceItem) :
    ∀ {key}, Linked g last key hops → Linked (g.insert k item) last key hops := by
  induction hops with
  | nil => exact fun h => h
  | cons hop rest ih =>
    rintro key ⟨rfl, next, hfind, hrest⟩
    simp only [List.map_cons, List.mem_cons, not_or] at hk
    exact ⟨rfl, next, (g.find?_insert_ne item hk.1).trans hfind, ih hk.2 hrest⟩

namespace Tracer

theorem copyHops_linked {hops : List Hop} (hkeys : (hops.map Hop.key).Nodup) (last : TraceKey)
    (g : Table TraceKey TraceItem) :
    Linked (copyHops hops last g).2 last (copyHops hops last g).1 hops := by
  induction hops with
  | nil => rfl
  | cons hop rest ih =>
    rw [List.map_cons, List.nodup_cons] at hkeys
    exact ⟨rfl, _, Table.find?_insert_self _ _ _, (ih hkeys.2).insert hkeys.1 _⟩

theorem find?_copyHops {hops : List Hop} {k : TraceKey} (hk : k ∉ hops.map Hop.key)
    (last : TraceKey) (g : Table TraceKey TraceItem) :
    (copyHops hops last g).2.find? k = g.find? k := by
  induction hops with
  | nil => rfl
  | cons hop rest ih =>
    rw [List.map_cons, List.mem_cons, not_or] at hk
    exact (Table.find?_insert_ne _ _ (Ne.symm hk.1)).trans (ih hk.2)

def promote (s : CallStack) (slot : Slot) : TraceM TraceKey := keep (s.history slot)

/-- The calls that may refer to a slot: those that run, and the one that is about to, which refers to
its arguments. -/
def MayRefer (t : Tracer) (s : CallStack) (slot : Slot) : Prop :=
  s.frames <:+ t.stack.frames ∨ s.below = t.stack.frames ∧ ∃ i, slot = .argument i

end Tracer

namespace CallStack

def Distinct (s : CallStack) : Prop := (s.frames.map Frame.callId).Nodup

theorem frames_injective : Function.Injective frames := by
  rintro ⟨top, below⟩ ⟨top', below'⟩ h
  cases h
  rfl

theorem eq_of_depth {s u v : CallStack} (hu : u.frames <:+ s.frames) (hv : v.frames <:+ s.frames)
    (h : u.depth = v.depth) : u = v := by
  have hlength : u.frames.length = v.frames.length := h
  exact frames_injective
    ((List.suffix_of_suffix_length_le hu hv (Nat.le_of_eq hlength)).eq_of_length hlength)

theorem eq_of_callId {s u v : CallStack} (hs : s.Distinct) (hu : u.frames <:+ s.frames)
    (hv : v.frames <:+ s.frames) (h : u.top.callId = v.top.callId) : u = v := by
  -- the longer one would have the identity twice
  have hlt : ∀ {a b : CallStack}, a.frames <:+ s.frames → b.frames <:+ s.frames →
      a.top.callId = b.top.callId → b.frames.length ≤ a.frames.length := by
    intro a b ha hb hid
    refine Nat.le_of_not_lt fun hlen => ?_
    have hab : a.frames <:+ b.below := by
      have hle := List.suffix_of_suffix_length_le ha hb (Nat.le_of_lt hlen)
      rcases List.suffix_cons_iff.1 hle with heq | hsuffix
      · exact absurd (congrArg List.length heq) (Nat.ne_of_lt hlen)
      · exact hsuffix
    have hnodup : (b.frames.map Frame.callId).Nodup := hs.sublist (hb.sublist.map _)
    rw [frames, List.map_cons, List.nodup_cons] at hnodup
    apply hnodup.1
    rw [← hid]
    exact List.mem_map_of_mem (hab.subset List.mem_cons_self)
  exact eq_of_depth hu hv (Nat.le_antisymm (hlt hv hu h.symm) (hlt hu hv h))

theorem suffix_of_owner {s t : CallStack} {slot : Slot} (h : s.owner slot = .ok t) :
    t.frames <:+ s.frames := by
  obtain ⟨top, below⟩ := s
  cases slot with
  | argument i =>
    cases below with
    | nil => cases h
    | cons f rest =>
      cases h
      exact List.suffix_cons _ _
  | _ =>
    cases h
    exact List.suffix_refl _

theorem key_injective {s : CallStack} (hs : s.Distinct) {p q : Site}
    (hp : p.1.frames <:+ s.frames) (hq : q.1.frames <:+ s.frames) (h : p.key = q.key) : p = q := by
  obtain ⟨u, k⟩ := p
  obtain ⟨v, l⟩ := q
  simp only [Site.key, TraceKey.of, TraceKey.mk.injEq, TraceScope.identity.injEq] at h
  exact Prod.ext (eq_of_callId hs hp hq h.1) h.2

theorem Follows.keys_nodup {met p hops ending} (h : Follows met p hops ending) {s : CallStack}
    (hs : s.Distinct) (hp : p.1.frames <:+ s.frames) (hmet : ∀ q ∈ met, q.1.frames <:+ s.frames) :
    (hops.map Hop.key).Nodup ∧ ∀ q ∈ met, q.key ∉ hops.map Hop.key := by
  have hne : ∀ {met : List Site} {p : Site}, p.1.frames <:+ s.frames →
      (∀ q ∈ met, q.1.frames <:+ s.frames) → p ∉ met → ∀ q ∈ met, q.key ≠ p.key := by
    intro met p hp hmet hmem q hq hkey
    exact hmem (key_injective hs (hmet q hq) hp hkey ▸ hq)
  induction h with
  | missing => simp
  | repeated => simp
  | beyond _ hmem _ =>
    refine ⟨by simp, fun q hq hin => ?_⟩
    exact hne hp hmet hmem q hq (List.mem_singleton.1 hin)
  | @further met p item t hops ending hitem hmem _ howner _ ih =>
    obtain ⟨hnodup, hout⟩ := ih ((suffix_of_owner howner).trans hp)
      (List.forall_mem_cons.2 ⟨hp, hmet⟩)
    obtain ⟨hpout, hout⟩ := List.forall_mem_cons.1 hout
    refine ⟨List.nodup_cons.2 ⟨hpout, hnodup⟩, fun q hq hin => ?_⟩
    rcases List.mem_cons.1 hin with hkey | hin
    · exact hne hp hmet hmem q hq hkey
    · exact hout q hq hin

end CallStack

end CoercionTrace
