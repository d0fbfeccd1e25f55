import CoercionTrace.Proofs.Monitor.Reach
import CoercionTrace.Proofs.Trace.Steps
import CoercionTrace.Trace.Lines

/-!
# Histories of copied values

The history that is told of a copy in the global table is that of the original, unless what the
table holds at its end interferes (`Follows.trail_eq`). Main statement: what copying a history does
in any state that a monitor can come to (`promote_exact`).
-/

namespace CoercionTrace

open CallStack

def Hop.shown (hop : Hop) : Slot × Value := (hop.slot, hop.value)

inductive Passes (g : Table TraceKey TraceItem) : TraceKey → TraceKey → Prop
  | here {key item} : g.find? key = some item → Passes g key key
  | next {key item k} : g.find? key = some item → Passes g item.source k → Passes g key k

namespace CallStack

def ChainEnd.Apart (g : Table TraceKey TraceItem) (keys : List TraceKey) : ChainEnd → Prop
  | missing p => g.find? p.key = none
  | repeated _ => True
  | beyond source => ∀ k ∈ keys, ¬ Passes g source k

theorem ChainEnd.Apart.mono {g : Table TraceKey TraceItem} {keys keys' : List TraceKey}
    (h : keys' ⊆ keys) {ending : ChainEnd} (ha : ending.Apart g keys) : ending.Apart g keys' := by
  cases ending with
  | beyond source => exact fun k hk => ha k (h hk)
  | _ => exact ha

end CallStack

namespace Tracer

def shown (e : TraceKey × TraceItem) : Slot × Value := (e.1.slot, e.2.value)

theorem scope_of_not_volatile {key : TraceKey} (h : key.isVolatile = false)
    (ht : key.isTraced = true) : ∃ id, key.scope = .identity id := by
  obtain ⟨scope, slot⟩ := key
  cases scope with
  | identity id => exact ⟨id, rfl⟩
  | here => simp_all [TraceKey.isVolatile, TraceKey.isHere]

theorem trailWithin_global (t : Tracer) (n : Nat) (s : CallStack) (passed : Bool)
    (seen : List (Option Nat × TraceKey)) {key : TraceKey} (hk : key.isVolatile = false) :
    t.trailWithin (n + 1) s passed seen key =
      if key.isTraced then
        match t.global.find? key with
        | some item =>
          if (none, key) ∈ seen then []
          else (key, item) :: t.trailWithin n s true ((none, key) :: seen) item.source
        | none => []
      else [] := by
  rw [trailWithin]
  split
  · next ht =>
    obtain ⟨id, hid⟩ := scope_of_not_volatile hk ht
    have hlocate : t.locate s passed key = .ok (t.global.find? key, none, s) := by
      rw [locate, hid]
    rw [hlocate]
    cases t.global.find? key with
    | none => rfl
    | some item => simp
  · rfl

theorem trailWithin_local (t : Tracer) (n : Nat) {s u : CallStack} {passed : Bool}
    (seen : List (Option Nat × TraceKey)) {slot : Slot} (hr : slot ≠ .result)
    (ha : slot ≠ .anonymous) (hs : (if passed then s.owner slot else .ok s) = .ok u) :
    t.trailWithin (n + 1) s passed seen (.here slot) =
      match u.top.entries.find? slot with
      | some item =>
        if (some u.depth, .here slot) ∈ seen then []
        else (.here slot, item) ::
          t.trailWithin n u true ((some u.depth, .here slot) :: seen) item.source
      | none => [] := by
  have htraced : (TraceKey.here slot).isTraced = true := by
    simp [TraceKey.isTraced, TraceKey.here, ha]
  have hlocate : t.locate s passed (.here slot) =
      .ok (u.top.entries.find? slot, some u.depth, u) := by
    unfold locate
    cases slot <;> simp_all [TraceKey.here]
  rw [trailWithin, if_pos htraced, hlocate]
  cases u.top.entries.find? slot with
  | none => rfl
  | some item => simp

theorem listed_of_linked {t : Tracer} {last : TraceKey} {hops : List Hop} :
    ∀ {key : TraceKey} (n : Nat) (s : CallStack) (passed : Bool)
      (seen : List (Option Nat × TraceKey)), Linked t.global last key hops →
      (∀ hop ∈ hops, hop.slot ≠ .anonymous) → (hops.map Hop.key).Nodup →
      (∀ hop ∈ hops, (none, hop.key) ∉ seen) →
      (hops.map Hop.shown).take n <+: (t.trailWithin n s passed seen key).map shown := by
  induction hops with
  | nil => intros; simp
  | cons hop rest ih =>
    rintro _ n s passed seen ⟨rfl, next, hfind, hrest⟩ hslots hnodup hseen
    obtain ⟨hslot, hslots⟩ := List.forall_mem_cons.1 hslots
    obtain ⟨hfresh, hseen⟩ := List.forall_mem_cons.1 hseen
    rw [List.map_cons, List.nodup_cons] at hnodup
    cases n with
    | zero => simp
    | succ n =>
      have htraced : hop.key.isTraced = true := by
        simp [TraceKey.isTraced, Hop.key, TraceKey.of, hslot]
      rw [trailWithin_global t n s passed seen rfl, if_pos htraced, hfind]
      simp only [hfresh, if_false, List.map_cons, List.take_succ_cons]
      refine List.cons_prefix_cons.2 ⟨rfl, ih n s true _ hrest hslots hnodup.2 ?_⟩
      intro other hin hmem
      rcases List.mem_cons.1 hmem with heq | hmem
      · apply hnodup.1
        rw [← (Prod.mk.inj heq).2]
        exact List.mem_map_of_mem hin
      · exact hseen other hin hmem

-- What is behind `key` in the one table is behind it in the other, for it lies apart from `keys`.
-- Should it lead to one of them where nothing is kept, the second history has met that one.
theorem trailWithin_of_apart {t t' : Tracer} {keys : List TraceKey}
    (hsources : ∀ k item, t.global.find? k = some item → item.source.isVolatile = false)
    (hsame : ∀ k, k ∉ keys → t'.global.find? k = t.global.find? k) (n : Nat) :
    ∀ {key : TraceKey} {s s' : CallStack} {passed passed' : Bool}
      {seen seen' : List (Option Nat × TraceKey)}, key.isVolatile = false →
      (∀ k ∈ keys, ¬ Passes t.global key k) → (∀ k ∈ keys, (none, k) ∈ seen') →
      (∀ k, k ∉ keys → ((none, k) ∈ seen' ↔ (none, k) ∈ seen)) →
      t'.trailWithin n s' passed' seen' key = t.trailWithin n s passed seen key := by
  induction n with
  | zero => intros; rfl
  | succ n ih =>
    intro key s s' passed passed' seen seen' hk hpasses hmet hseen
    rw [trailWithin_global t n s passed seen hk, trailWithin_global t' n s' passed' seen' hk]
    by_cases hin : key ∈ keys
    · have hnone : t.global.find? key = none := by
        cases hfind : t.global.find? key with
        | none => rfl
        | some item => exact (hpasses key hin (.here hfind)).elim
      rw [hnone]
      cases t'.global.find? key <;> simp [hmet key hin]
    · rw [hsame key hin]
      cases hfind : t.global.find? key with
      | none => rfl
      | some item =>
        simp only [hseen key hin]
        split
        · split
          · rfl
          · refine congrArg ((key, item) :: ·) (ih (hsources key item hfind) ?_ ?_ ?_)
            · exact fun k hk hp => hpasses k hk (.next hfind hp)
            · exact fun k hk => List.mem_cons_of_mem _ (hmet k hk)
            · intro k hk
              simp [hseen k hk]
        · rfl

end Tracer

namespace CallStack

open Tracer

def metHere (met : List Site) : List (Option Nat × TraceKey) :=
  met.map fun p => (some p.1.depth, .here p.2)

def metAbove (met : List Site) : List (Option Nat × TraceKey) := met.map fun p => (none, p.key)

theorem mem_metHere {met : List Site} {p : Site} {s : CallStack} (hp : p.1.frames <:+ s.frames)
    (hmet : ∀ q ∈ met, q.1.frames <:+ s.frames) :
    (some p.1.depth, .here p.2) ∈ metHere met ↔ p ∈ met := by
  constructor
  · intro h
    obtain ⟨q, hq, heq⟩ := List.mem_map.1 h
    simp only [Prod.mk.injEq, Option.some.injEq, TraceKey.here, TraceKey.mk.injEq, true_and] at heq
    have hstack := eq_of_depth (hmet q hq) hp heq.1
    rwa [← Prod.ext hstack heq.2]
  · exact fun h => List.mem_map.2 ⟨p, h, rfl⟩

theorem mem_metAbove {met : List Site} {k : TraceKey} :
    (none, k) ∈ metAbove met ↔ k ∈ met.map Site.key := by
  simp [metAbove, List.mem_map]

theorem none_notMem_metHere {met : List Site} {k : TraceKey} : (none, k) ∉ metHere met := by
  simp [metHere]

/-- The calls of a stack and what is behind them: nothing refers to the result of a call. -/
def Keeps (s : CallStack) : Prop := ∀ f ∈ s.frames, Keepable f.entries

theorem source_of_item? {s : CallStack} (hs : s.Keeps) {p : Site} (hp : p.1.frames <:+ s.frames)
    {item : TraceItem} (hitem : p.item? = some item) (hv : item.source.isVolatile = true) :
    item.source = .here item.source.slot ∧ item.source.slot ≠ .anonymous ∧
      item.source.slot ≠ .result := by
  refine ⟨?_, slot_of_volatile (hs p.1.top (hp.subset List.mem_cons_self) p.2 item hitem).2 hv⟩
  simp only [TraceKey.isVolatile, TraceKey.isHere, Bool.and_eq_true, beq_iff_eq] at hv
  cases h : item.source
  simp_all [TraceKey.here]

theorem Follows.key_of_linked {g : Table TraceKey TraceItem} {met p hops ending}
    (h : Follows met p hops ending) {key : TraceKey} (hl : Linked g ending.key key hops) :
    key = p.key := by
  cases h with
  | missing => exact hl
  | repeated => exact hl
  | beyond => exact hl.1
  | further => exact hl.1

theorem key_notMem {s : CallStack} (hs : s.Distinct) {met : List Site} {p : Site}
    (hp : p.1.frames <:+ s.frames) (hmet : ∀ q ∈ met, q.1.frames <:+ s.frames) (hmem : p ∉ met) :
    p.key ∉ met.map Site.key := by
  intro hin
  obtain ⟨q, hq, hkey⟩ := List.mem_map.1 hin
  exact hmem (key_injective hs (hmet q hq) hp hkey ▸ hq)

theorem trailWithin_copied {t t' : Tracer} {s : CallStack} (hs : s.Distinct) {met : List Site}
    {p : Site} (hp : p.1.frames <:+ s.frames) (hmet : ∀ q ∈ met, q.1.frames <:+ s.frames)
    (hmem : p ∉ met) (hr : p.2 ≠ .result) (ha : p.2 ≠ .anonymous) {item : TraceItem}
    (hitem : p.item? = some item) {next : TraceKey}
    (hfind : t'.global.find? p.key = some ⟨item.value, next⟩) {u u' : CallStack}
    {passed passed' : Bool} (hu : (if passed then u.owner p.2 else .ok u) = .ok p.1) {n : Nat}
    (htail : (t'.trailWithin n u' true (metAbove (p :: met)) next).map shown =
      (t.trailWithin n p.1 true (metHere (p :: met)) item.source).map shown) :
    (t'.trailWithin (n + 1) u' passed' (metAbove met) p.key).map shown =
      (t.trailWithin (n + 1) u passed (metHere met) (.here p.2)).map shown := by
  have htraced : p.key.isTraced = true := by simp [TraceKey.isTraced, Site.key, TraceKey.of, ha]
  have habove : (none, p.key) ∉ metAbove met := fun h =>
    key_notMem hs hp hmet hmem (mem_metAbove.1 h)
  have hhere := mt (mem_metHere hp hmet).1 hmem
  rw [trailWithin_global _ _ _ _ _ rfl, trailWithin_local _ _ _ hr ha hu, if_pos htraced, hfind,
    show p.1.top.entries.find? p.2 = some item from hitem]
  simp only [habove, hhere, if_false, List.map_cons]
  exact List.cons_eq_cons.2 ⟨rfl, htail⟩

theorem Follows.trail_eq {t t' : Tracer} {s : CallStack} (hs : s.Distinct) (hkeeps : s.Keeps)
    (hsources : ∀ k item, t.global.find? k = some item → item.source.isVolatile = false)
    {met p hops ending} (h : Follows met p hops ending) :
    p.1.frames <:+ s.frames → (∀ q ∈ met, q.1.frames <:+ s.frames ∧ q.item? ≠ none) →
    p.2 ≠ .result → p.2 ≠ .anonymous → Linked t'.global ending.key p.key hops →
    (∀ k, k ∉ met.map Site.key ++ hops.map Hop.key → t'.global.find? k = t.global.find? k) →
    ending.Apart t.global (met.map Site.key ++ hops.map Hop.key) →
    ∀ (n : Nat) (u u' : CallStack) (passed passed' : Bool),
      (if passed then u.owner p.2 else .ok u) = .ok p.1 →
      (t'.trailWithin n u' passed' (metAbove met) p.key).map shown =
        (t.trailWithin n u passed (metHere met) (.here p.2)).map shown := by
  -- along the entries that were copied; both walks have met the same places, each by its own keys
  induction h with
  | @missing met p hnone =>
    intro hp hmet hr ha _ hsame hapart n u u' passed passed' hu
    cases n with
    | zero => rfl
    | succ n =>
      have hout := key_notMem hs hp (fun q hq => (hmet q hq).1) fun hin => (hmet p hin).2 hnone
      have hfind : t'.global.find? p.key = none := by
        rw [hsame p.key (by simpa using hout)]
        exact hapart
      rw [trailWithin_global _ _ _ _ _ rfl, trailWithin_local _ _ _ hr ha hu, hfind,
        show p.1.top.entries.find? p.2 = none from hnone]
      simp
  | @repeated met p item hitem hmem =>
    intro hp hmet hr ha _ _ _ n u u' passed passed' hu
    cases n with
    | zero => rfl
    | succ n =>
      have habove : (none, p.key) ∈ metAbove met := mem_metAbove.2 (List.mem_map_of_mem hmem)
      have hhere := (mem_metHere hp fun q hq => (hmet q hq).1).2 hmem
      rw [trailWithin_global _ _ _ _ _ rfl, trailWithin_local _ _ _ hr ha hu,
        show p.1.top.entries.find? p.2 = some item from hitem]
      cases t'.global.find? p.key <;> simp [habove, hhere]
  | @beyond met p item hitem hmem hsource =>
    -- behind the last copied entry the table is what it was, apart from the copies
    intro hp hmet hr ha hlinked hsame hapart n u u' passed passed' hu
    cases n with
    | zero => rfl
    | succ n =>
      obtain ⟨-, next, hfind, rfl⟩ := hlinked
      apply trailWithin_copied hs hp (fun q hq => (hmet q hq).1) hmem hr ha hitem hfind hu
      apply congrArg (List.map shown)
      refine trailWithin_of_apart hsources hsame n hsource hapart ?_ ?_
      · intro k hk
        simp only [List.map_cons, List.map_nil, List.mem_append, List.mem_singleton] at hk
        rcases hk with hk | rfl
        · exact List.mem_cons_of_mem _ (mem_metAbove.2 hk)
        · exact List.mem_cons_self
      · intro k hk
        have hk' : (none, k) ∉ metAbove (p :: met) := by
          rw [mem_metAbove]
          simp only [List.map_cons, List.map_nil, List.mem_append, List.mem_singleton] at hk
          exact fun h => hk ((List.mem_cons.1 h).symm)
        simp [hk', none_notMem_metHere]
  | @further met p item v hops ending hitem hmem hv howner hfollows ih =>
    intro hp hmet hr ha hlinked hsame hapart n u u' passed passed' hu
    cases n with
    | zero => rfl
    | succ n =>
      obtain ⟨-, next, hfind, hrest⟩ := hlinked
      obtain rfl := hfollows.key_of_linked hrest
      obtain ⟨hsource, ha', hr'⟩ := source_of_item? hkeeps hp hitem hv
      have hkeys : ∀ k, k ∈ (p :: met).map Site.key ++ hops.map Hop.key ↔
          k ∈ met.map Site.key ++ (p.key :: hops.map Hop.key) := by
        intro k
        simp only [List.map_cons, List.mem_append, List.mem_cons]
        rw [or_assoc]
        exact or_left_comm
      have htail := ih ((suffix_of_owner howner).trans hp)
        (List.forall_mem_cons.2 ⟨⟨hp, by simp [hitem]⟩, hmet⟩) hr' ha' hrest
        (fun k hk => hsame k (mt (hkeys k).2 hk)) (hapart.mono fun k hk => (hkeys k).1 hk)
        n p.1 u' true true howner
      rw [show TraceKey.here (v, item.source.slot).2 = item.source from hsource.symm] at htail
      exact trailWithin_copied hs hp (fun q hq => (hmet q hq).1) hmem hr ha hitem hfind hu htail

end CallStack

namespace Tracer

theorem Invariant.distinct {t : Tracer} (h : t.Invariant) : t.stack.Distinct :=
  h.ordered.imp fun hlt => (Nat.ne_of_lt hlt).symm

theorem suffix_of_mayRefer {t : Tracer} {s u : CallStack} {slot : Slot} (h : t.MayRefer s slot)
    (hu : s.owner slot = .ok u) : u.frames <:+ t.stack.frames := by
  rcases h with h | ⟨hbelow, i, rfl⟩
  · exact (suffix_of_owner hu).trans h
  · cases hc : s.caller? with
    | none => simp [owner, hc] at hu
    | some caller =>
      have hframes : t.stack.frames = caller.frames := by
        rw [← hbelow, caller_eq hc]
      simp only [owner, hc, Except.ok.injEq] at hu
      exact hframes ▸ hu ▸ List.suffix_refl _

theorem run_promote_error {t : Tracer} {s : CallStack} {slot : Slot} :
    (∃ e t', (promote s slot).run t = (.error e, t')) ↔ ∃ e, s.history slot = .error e := by
  unfold promote keep
  constructor
  · rintro ⟨e, t', h⟩
    cases hc : s.history slot with
    | error e => exact ⟨e, rfl⟩
    | ok history =>
      rw [hc] at h
      cases h
  · rintro ⟨e, h⟩
    rw [h]
    exact ⟨e, t, rfl⟩

theorem eq_of_promote_error {t t' : Tracer} {s : CallStack} {slot : Slot} {e : TraceError}
    (h : (promote s slot).run t = (.error e, t')) : t' = t :=
  eq_of_keep_fails h

theorem yields_promote {t t' : Tracer} {s : CallStack} {slot : Slot} {key : TraceKey}
    (h : Yields (promote s slot) t key t') :
    ∃ hops last, s.history slot = .ok (hops, last) ∧
      key = (copyHops hops last t.global).1 ∧
      t' = { t with global := (copyHops hops last t.global).2 } :=
  yields_keep h

theorem listing_exact {t t' : Tracer} (h : t.Invariant) {name : String} {hops : List Hop}
    {ending : ChainEnd} (hfollows : Follows [] (t.stack, .name name) hops ending)
    (hnodup : (hops.map Hop.key).Nodup) {key : TraceKey}
    (hlinked : Linked t'.global ending.key key hops)
    (hsame : ∀ k, k ∉ hops.map Hop.key → t'.global.find? k = t.global.find? k)
    (hslots : ∀ hop ∈ hops, hop.slot ≠ .anonymous) :
    (hops.map Hop.shown).take historyLimit <+: (t'.trail key).map shown ∧
      (ending.Apart t.global (hops.map Hop.key) →
        (t'.trail key).map shown = (t.trail (.here (.name name))).map shown) := by
  refine ⟨listed_of_linked _ _ _ _ hlinked hslots hnodup (by simp), fun hapart => ?_⟩
  obtain rfl := hfollows.key_of_linked hlinked
  exact hfollows.trail_eq h.distinct h.entries (fun k item hk => (h.global k item hk).2)
    (List.suffix_refl _) (by simp) (by simp) (by simp) hlinked hsame hapart
    historyLimit t.stack t'.stack false false rfl

end Tracer

open Tracer

/-- In every state that a program leads its monitor to, copying the history of a slot fails exactly
if the bottom frame is asked for an argument, and then does nothing. Otherwise the entries that are
followed are copied, each under its own key with the next one as its source, and nothing else
changes. What is told of the copy begins with these entries, and is what is told of the original if
the table holds nothing where an entry is missing, and leads from a source beyond to none of the
copies. -/
theorem promote_exact {σ : Type} (w : World σ) (r : RealmId) (checks : CheckConfig) {w' : World σ}
    (h : Reaches (w.newMonitor r checks).1 (w.newMonitor r checks).2 w') {s : CallStack}
    {slot : Slot} (hs : (w'.monitor (w.newMonitor r checks).1).tracer.MayRefer s slot) :
    let t := (w'.monitor (w.newMonitor r checks).1).tracer
    ((∃ e t', (promote s slot).run t = (.error e, t')) ↔
      ∃ u i, Refers s slot u (.argument i) ∧ u.below = []) ∧
    (∀ e t', (promote s slot).run t = (.error e, t') → t' = t) ∧
    ∀ key t', Yields (promote s slot) t key t' →
      ∃ u hops ending, s.owner slot = .ok u ∧ Follows [] (u, slot) hops ending ∧
        Linked t'.global ending.key key hops ∧ (hops.map Hop.key).Nodup ∧
        (∀ k, k ∉ hops.map Hop.key → t'.global.find? k = t.global.find? k) ∧
        t' = { t with global := t'.global } ∧
        ∀ name, slot = .name name → s = t.stack →
          (hops.map Hop.shown).take historyLimit <+: (t'.trail key).map shown ∧
          (ending.Apart t.global (hops.map Hop.key) →
            (t'.trail key).map shown = (t.trail (.here slot)).map shown) := by
  intro t
  have hinvariant : t.Invariant := h.tracer_kept.1
  refine ⟨run_promote_error.trans history_eq_error_iff, fun e t' => eq_of_promote_error, ?_⟩
  intro key t' hy
  obtain ⟨hops, last, hhistory, rfl, rfl⟩ := yields_promote hy
  obtain ⟨u, ending, ho, hfollows, rfl⟩ := history_eq_ok_iff.1 hhistory
  have hsuffix := suffix_of_mayRefer hs ho
  have hnodup := (hfollows.keys_nodup hinvariant.distinct hsuffix (by simp)).1
  have hlinked := copyHops_linked hnodup ending.key t.global
  have hsame := fun k (hk : k ∉ hops.map Hop.key) => find?_copyHops hk ending.key t.global
  refine ⟨u, hops, ending, ho, hfollows, hlinked, hnodup, hsame, rfl, ?_⟩
  rintro name rfl rfl
  obtain rfl := Except.ok.inj ho
  refine listing_exact hinvariant hfollows hnodup hlinked hsame ?_
  have hlasting := history_lasting hinvariant.entries ⟨by simp, by simp⟩ hhistory
  exact fun hop hm => (hlasting.1 hop hm).1

def World.assigned (w : World Unit) (assignments : List (Value × RawKey × RawKey)) : World Unit :=
  assignments.foldl (fun w a => ((Monitor.assign 0 a.1 a.2.1 a.2.2).run w).2) w

theorem reaches_assigned (w₀ : World Unit) (assignments : List (Value × RawKey × RawKey)) :
    ∀ {w : World Unit}, Reaches 0 w₀ w → Reaches 0 w₀ (w.assigned assignments) := by
  induction assignments with
  | nil => exact fun h => h
  | cons a rest ih => exact fun h => ih (.assign a.1 a.2.1 a.2.2 h)

def World.watched : World Unit := ((World.withFunction { behaviour := .routine 0 }).newMonitor 0 {}).2

def World.crossed : World Unit := watched.assigned
  [(.number .nan, { slot := .text "x" }, {}),
    (.number .nan, { slot := .text "y" }, { slot := .text "x" }),
    (.number .nan, { slot := .text "x" }, { slot := .text "y" })]

theorem promote_exact_crossed :
    let t := (World.crossed.monitor 0).tracer
    ∃ t', Yields (promote t.stack (.name "x")) t (.of 2 (.name "x")) t' ∧
      (t'.trail (.of 2 (.name "x"))).map shown =
        [(.name "x", .number .nan), (.name "y", .number .nan)] ∧
      ∃ hops ending, Follows [] (t.stack, .name "x") hops ending ∧
        Linked t'.global ending.key (.of 2 (.name "x")) hops ∧ (hops.map Hop.key).Nodup := by
  intro t
  have hy : Yields (promote t.stack (.name "x")) t (.of 2 (.name "x")) _ :=
    .of_toOption (by decide +kernel)
  obtain ⟨u, hops, ending, ho, hfollows, hlinked, hnodup, -⟩ :=
    (promote_exact (.withFunction { behaviour := .routine 0 }) 0 {}
      (reaches_assigned _ _ (.refl World.watched)) (.inl (List.suffix_refl _))).2.2 _ _ hy
  obtain rfl := Except.ok.inj ho
  exact ⟨_, hy, by decide +kernel, hops, ending, hfollows, hlinked, hnodup⟩

/-- A variable whose value came from another, which had gone to a global one and is clean since. -/
def World.outlived : World Unit := watched.assigned
  [(.number .nan, { slot := .text "y" }, {}),
    (.number .nan, { scope := .object 0, slot := .text "g" }, { slot := .text "y" }),
    (.number .nan, { slot := .text "x" }, { slot := .text "y" }),
    (.number .zero, { slot := .text "y" }, {})]

/-- Its history ends at the other one where it is local, and goes on there once it is copied: what
the table keeps for the other is from before. -/
theorem trail_promoted_outlived :
    let t := (World.outlived.monitor 0).tracer
    Reaches 0 World.watched World.outlived ∧ ∃ key t',
      Yields (promote t.stack (.name "x")) t key t' ∧
      (t.trail (.here (.name "x"))).map shown = [(.name "x", .number .nan)] ∧
      (t'.trail key).map shown = [(.name "x", .number .nan), (.name "y", .number .nan)] :=
  ⟨reaches_assigned _ _ (.refl World.watched), .of 2 (.name "x"), _,
    .of_toOption (by decide +kernel), by decide +kernel, by decide +kernel⟩

end CoercionTrace
