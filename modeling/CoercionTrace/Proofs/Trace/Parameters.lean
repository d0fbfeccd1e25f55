import CoercionTrace.Proofs.Trace.Listing
import CoercionTrace.Proofs.Trace.Operations

/-!
# What a call knows of its arguments

A call that was announced gets, for each of its names, what was passed at the last position where
anything was. In the global table the argument of a captured name has its history behind it: each
entry that is copied depends on the calls alone, not on the history that it is copied with
(`CallStack.CopiedAs.unique`), so that the histories of other parameters leave it as it is. Main
statement: `pushFrame_connects`.
-/

namespace CoercionTrace

open CallStack

namespace CallStack

variable {s : CallStack}

/-- The entry that a site has in the table once a history that leads through it is copied. -/
inductive CopiedAs (s : CallStack) : TraceKey → TraceItem → Prop
  | beyond {p : Site} {item : TraceItem} : p.1.frames <:+ s.frames → p.item? = some item →
      item.source.isVolatile = false → CopiedAs s p.key item
  | further {p : Site} {item : TraceItem} {t : CallStack} : p.1.frames <:+ s.frames →
      p.item? = some item → item.source.isVolatile = true → p.1.owner item.source.slot = .ok t →
      CopiedAs s p.key ⟨item.value, .of t.top.callId item.source.slot⟩

theorem CopiedAs.unique (hs : s.Distinct) {key : TraceKey} {item item' : TraceItem}
    (h : s.CopiedAs key item) (h' : s.CopiedAs key item') : item = item' := by
  -- There is one site with the key, and one way in which its entry goes on.
  have hsame : ∀ {p q : Site} {i i' : TraceItem}, p.1.frames <:+ s.frames → q.1.frames <:+ s.frames →
      p.key = q.key → p.item? = some i → q.item? = some i' → p = q ∧ i = i' := by
    intro p q i i' hp hq hkey hi hi'
    obtain rfl := key_injective hs hp hq hkey
    exact ⟨rfl, Option.some.inj (hi.symm.trans hi')⟩
  generalize hkey : key = k at h'
  cases h with
  | beyond hp hitem hv =>
    cases h' with
    | beyond hq hitem' _ => exact (hsame hp hq hkey hitem hitem').2
    | further hq hitem' hv' _ =>
      obtain ⟨rfl, rfl⟩ := hsame hp hq hkey hitem hitem'
      simp [hv] at hv'
  | further hp hitem hv ho =>
    cases h' with
    | beyond hq hitem' hv' =>
      obtain ⟨rfl, rfl⟩ := hsame hp hq hkey hitem hitem'
      simp [hv] at hv'
    | further hq hitem' _ ho' =>
      obtain ⟨rfl, rfl⟩ := hsame hp hq hkey hitem hitem'
      obtain rfl := Except.ok.inj (ho.symm.trans ho')
      rfl

theorem Follows.copiedAs {met p hops ending} (h : Follows met p hops ending) :
    p.1.frames <:+ s.frames → ∀ {g : Table TraceKey TraceItem} {key : TraceKey},
      Linked g ending.key key hops →
      ∀ hop ∈ hops, ∃ item, g.find? hop.key = some item ∧ s.CopiedAs hop.key item := by
  induction h with
  | missing => simp
  | repeated => simp
  | @beyond met p item hitem _ hv =>
    rintro hp g key ⟨-, next, hfind, rfl⟩ hop hm
    obtain rfl := List.mem_singleton.1 hm
    exact ⟨_, hfind, .beyond hp hitem hv⟩
  | @further met p item t hops ending hitem _ hv howner hrest ih =>
    rintro hp g key ⟨-, next, hfind, hlinked⟩
    refine List.forall_mem_cons.2 ⟨⟨_, hfind, ?_⟩, ih ((suffix_of_owner howner).trans hp) hlinked⟩
    rw [hrest.key_of_linked hlinked]
    exact .further hp hitem hv howner

theorem Follows.callId_mem {met p hops ending} (h : Follows met p hops ending) :
    p.1.frames <:+ s.frames → ∀ hop ∈ hops, hop.callId ∈ s.frames.map Frame.callId := by
  induction h with
  | missing => simp
  | repeated => simp
  | beyond =>
    intro hp hop hm
    obtain rfl := List.mem_singleton.1 hm
    exact List.mem_map_of_mem (hp.subset List.mem_cons_self)
  | further _ _ _ howner _ ih =>
    intro hp
    refine List.forall_mem_cons.2 ⟨?_, ih ((suffix_of_owner howner).trans hp)⟩
    exact List.mem_map_of_mem (hp.subset List.mem_cons_self)

theorem Follows.notMem_keys {met p hops ending} (h : Follows met p hops ending)
    (hp : p.1.frames <:+ s.frames) {id : TraceId} (hid : id ∉ s.frames.map Frame.callId) (slot : Slot) :
    TraceKey.of id slot ∉ hops.map Hop.key := by
  intro hin
  obtain ⟨hop, hm, hkey⟩ := List.mem_map.1 hin
  have hcall : hop.callId = id := TraceScope.identity.inj (congrArg TraceKey.scope hkey)
  exact hid (hcall ▸ h.callId_mem hp hop hm)

theorem Follows.slot_ne {met p hops ending} (h : Follows met p hops ending) :
    p.2 ≠ .anonymous → ∀ hop ∈ hops, hop.slot ≠ .anonymous := by
  induction h with
  | missing => simp
  | repeated => simp
  | beyond =>
    intro hp hop hm
    obtain rfl := List.mem_singleton.1 hm
    exact hp
  | further _ _ hv _ _ ih =>
    refine fun hp => List.forall_mem_cons.2 ⟨hp, ih ?_⟩
    simp only [TraceKey.isVolatile, TraceKey.isTraced, Bool.and_eq_true, bne_iff_ne] at hv
    exact hv.2

end CallStack

theorem Linked.congr {g g' : Table TraceKey TraceItem} {last : TraceKey} {hops : List Hop}
    (h : ∀ hop ∈ hops, g'.find? hop.key = g.find? hop.key) :
    ∀ {key : TraceKey}, Linked g last key hops → Linked g' last key hops := by
  induction hops with
  | nil => exact fun h => h
  | cons hop rest ih =>
    obtain ⟨hhop, hrest⟩ := List.forall_mem_cons.1 h
    rintro key ⟨rfl, next, hfind, hlinked⟩
    exact ⟨rfl, next, hhop.trans hfind, ih hrest hlinked⟩

theorem CallStack.Follows.linked_copyHops {s : CallStack} (hs : s.Distinct)
    {g : Table TraceKey TraceItem} {p q : Site} {hops hops' : List Hop} {ending ending' : ChainEnd}
    (h : Follows [] p hops ending) (h' : Follows [] q hops' ending') (hp : p.1.frames <:+ s.frames)
    (hq : q.1.frames <:+ s.frames) {key : TraceKey} (hlinked : Linked g ending.key key hops) :
    Linked (Tracer.copyHops hops' ending'.key g).2 ending.key key hops := by
  have hnodup := (h'.keys_nodup hs hq (by simp)).1
  have hcopied := h'.copiedAs hq (Tracer.copyHops_linked hnodup ending'.key g)
  refine hlinked.congr fun hop hm => ?_
  by_cases hin : hop.key ∈ hops'.map Hop.key
  · obtain ⟨hop', hm', hkey⟩ := List.mem_map.1 hin
    obtain ⟨item, hfind, has⟩ := h.copiedAs hp hlinked hop hm
    obtain ⟨item', hfind', has'⟩ := hcopied hop' hm'
    rw [hkey] at hfind' has'
    rw [hfind, hfind', has.unique hs has']
  · exact Tracer.find?_copyHops hin ending'.key g

namespace Tracer

variable {t t' : Tracer} {n i : Nat} {captured : List String} {name other : String}
  {item : TraceItem} {parameters : List (Option String)} {entries : Table Slot TraceItem}
  {g g' : Table TraceKey TraceItem}

/-- What the global table has of a captured parameter. Behind an argument there is its history. -/
inductive Known (t : Tracer) (g : Table TraceKey TraceItem) (name : String) : TraceItem → Prop
  | omitted {item : TraceItem} : item.source = .untraced →
      g.find? (.of t.nextId (.name name)) = some item → Known t g name item
  | passed {item : TraceItem} {i : Nat} {hops : List Hop} {ending : ChainEnd} :
      item.source = .here (.argument i) →
      Follows [] (t.clearPending.stack, .argument i) hops ending →
      g.find? (.of t.nextId (.name name)) =
        some ⟨item.value, .of t.stack.top.callId (.argument i)⟩ →
      Linked g ending.key (.of t.stack.top.callId (.argument i)) hops → Known t g name item

theorem Publishes.known (hs : t.clearPending.stack.Distinct) (hfresh : t.nextId ∉ t.running)
    (hgives : t.Gives n i item) (h : t.Publishes name i item g g') : t.Known g' name item := by
  cases hgives with
  | omitted =>
    cases h with
    | omitted => exact .omitted rfl (Table.find?_insert_self _ _ _)
    | passed htraced => cases htraced
  | suspect =>
    cases h with
    | omitted htraced => cases htraced
    | passed _ hc =>
      obtain ⟨ending, hfollows, rfl⟩ := follows_of_chase _ hc [] _ (drops_nil _)
      have hsuffix := List.suffix_refl t.clearPending.stack.frames
      have hnodup := (hfollows.keys_nodup hs hsuffix (by simp)).1
      have hlinked := copyHops_linked hnodup ending.key g
      have hkey := hfollows.key_of_linked hlinked
      rw [hkey] at hlinked ⊢
      exact .passed rfl hfollows (Table.find?_insert_self _ _ _)
        (hlinked.insert (hfollows.notMem_keys hsuffix hfresh _) _)

theorem Known.publishes (hs : t.clearPending.stack.Distinct) (hfresh : t.nextId ∉ t.running)
    {item' : TraceItem} (hne : other ≠ name) (h : t.Known g name item)
    (hp : t.Publishes other i item' g g') : t.Known g' name item := by
  have hkey : TraceKey.of t.nextId (.name other) ≠ .of t.nextId (.name name) := fun he =>
    hne (Slot.name.inj (congrArg TraceKey.slot he))
  have hsuffix := List.suffix_refl t.clearPending.stack.frames
  cases hp with
  | omitted =>
    cases h with
    | omitted hsource hfind => exact .omitted hsource ((g.find?_insert_ne _ hkey).trans hfind)
    | passed hsource hfollows hfind hlinked =>
      exact .passed hsource hfollows ((g.find?_insert_ne _ hkey).trans hfind)
        (hlinked.insert (hfollows.notMem_keys hsuffix hfresh _) _)
  | passed _ hc =>
    obtain ⟨ending', hfollows', rfl⟩ := follows_of_chase _ hc [] _ (drops_nil _)
    have hcopy := find?_copyHops (hfollows'.notMem_keys hsuffix hfresh (.name name)) ending'.key g
    cases h with
    | omitted hsource hfind =>
      exact .omitted hsource ((Table.find?_insert_ne _ _ hkey).trans (hcopy.trans hfind))
    | passed hsource hfollows hfind hlinked =>
      refine .passed hsource hfollows ((Table.find?_insert_ne _ _ hkey).trans (hcopy.trans hfind)) ?_
      exact (hfollows.linked_copyHops hs hfollows' hsuffix hsuffix hlinked).insert
        (hfollows.notMem_keys hsuffix hfresh _) _

theorem Binds.known (hs : t.clearPending.stack.Distinct) (hfresh : t.nextId ∉ t.running)
    (h : t.Binds n captured parameters entries g) (hcaptured : name ∈ captured)
    (hitem : entries.find? (.name name) = some item) : t.Known g name item := by
  induction h with
  | nil => simp at hitem
  | skipped _ _ ih => exact ih hitem
  | @kept ps entries g other passed _ _ hother ih =>
    rw [Table.find?_insert_ne] at hitem
    · exact ih hitem
    · intro he
      exact hother (Slot.name.inj he ▸ hcaptured)
  | @published ps entries g g' other passed _ hpassed _ hpublishes ih =>
    -- the same name again takes the place of both entries, another one leaves the history alone
    by_cases he : other = name
    · subst he
      rw [Table.find?_insert_self] at hitem
      cases hitem
      exact hpublishes.known hs hfresh (passed?_eq_some_iff.1 hpassed)
    · rw [Table.find?_insert_ne _ _ fun h => he (Slot.name.inj h)] at hitem
      exact (ih hitem).publishes hs hfresh he hpublishes

theorem parameter_listed (hs : t.clearPending.stack.Distinct) (hfresh : t.nextId ∉ t.running)
    (hglobal : t'.global = g) {hops : List Hop} {ending : ChainEnd} {value : Value}
    (hfollows : Follows [] (t.clearPending.stack, .argument i) hops ending)
    (hfind : g.find? (.of t.nextId (.name name)) =
      some ⟨value, .of t.stack.top.callId (.argument i)⟩)
    (hlinked : Linked g ending.key (.of t.stack.top.callId (.argument i)) hops) :
    ((Slot.name name, value) :: hops.map Hop.shown).take historyLimit <+:
      (t'.trail (.of t.nextId (.name name))).map shown := by
  subst hglobal
  have hsuffix := List.suffix_refl t.clearPending.stack.frames
  let parameter : Hop := ⟨t.nextId, .name name, value⟩
  have hall : Linked t'.global ending.key parameter.key (parameter :: hops) :=
    ⟨rfl, _, hfind, hlinked⟩
  refine listed_of_linked historyLimit t'.stack false [] hall ?_ ?_ (by simp)
  · exact List.forall_mem_cons.2 ⟨by simp [parameter], hfollows.slot_ne (by simp)⟩
  · rw [List.map_cons, List.nodup_cons]
    exact ⟨hfollows.notMem_keys hsuffix hfresh _, (hfollows.keys_nodup hs hsuffix (by simp)).1⟩

theorem exists_lastBinding {j : Nat} (hposition : parameters[j]? = some (some name))
    (hgives : t.Gives n j item) : ∃ i item, t.LastBinding n parameters name i item := by
  induction parameters using List.reverseRecOn with
  | nil => simp at hposition
  | append_singleton ps parameter ih =>
    by_cases hlast : parameter = some name ∧ ∃ item, t.Gives n ps.length item
    · obtain ⟨hname, item, hgives⟩ := hlast
      exact ⟨_, item, lastBinding_concat.2 (.inl ⟨rfl, hname, hgives⟩)⟩
    · rcases position_concat.1 hposition with hposition | ⟨rfl, hname⟩
      · obtain ⟨i, item, h⟩ := ih hposition
        exact ⟨i, item, lastBinding_concat.2 (.inr ⟨h, fun hname item hgives =>
          hlast ⟨hname, item, hgives⟩⟩)⟩
      · exact absurd ⟨hname, item, hgives⟩ hlast

theorem lastBinding_iff_gives (hposition : parameters[i]? = some (some name))
    (hlast : ∀ j, i < j → parameters[j]? ≠ some (some name)) :
    (∀ item, (∃ j, t.LastBinding n parameters name j item) ↔ t.Gives n i item) ↔
      (∃ item, t.Gives n i item) ∨
        ∀ j item, parameters[j]? = some (some name) → ¬ t.Gives n j item := by
  constructor
  · refine fun h => Classical.or_iff_not_imp_left.2 fun hnone j item hj hgives => ?_
    obtain ⟨k, passed, hk⟩ := exists_lastBinding hj hgives
    exact hnone ⟨passed, (h passed).1 ⟨k, hk⟩⟩
  · rintro (⟨passed, hpassed⟩ | hnone) item
    · refine ⟨?_, fun hgives => ⟨i, hposition, hgives, fun j hij hj => absurd hj (hlast j hij)⟩⟩
      rintro ⟨j, hj⟩
      rcases Nat.lt_trichotomy j i with hlt | rfl | hgt
      · exact absurd hpassed (hj.last i hlt hposition passed)
      · exact hj.gives
      · exact absurd hj.position (hlast j hgt)
    · refine iff_of_false ?_ (hnone i item hposition)
      rintro ⟨j, hj⟩
      exact hnone j item hj.position hj.gives

/-- What a call that is entered gets. It takes over the announcement of its caller, if there is one.
Its names have what was passed at the last of their positions where anything was, which is what was
passed at the last of all unless only an earlier one has anything. A captured name is in the global
table too, and the history of its argument goes on behind it. -/
theorem pushFrame_connects (ops : List Operation) (parameters : List (Option String))
    (captured : List String) {callId : TraceId} {t' : Tracer}
    (h : Yields (pushFrame parameters captured) (after ops) callId t') :
    let t := after ops
    callId = t.nextId ∧ t'.stack.top.callId = callId ∧
    t'.stack.caller? = some t.clearPending.stack ∧
    (t.stack.top.pendingArguments = none → t'.stack.top.entries = .empty ∧ t'.global = t.global) ∧
    ∀ n, t.stack.top.pendingArguments = some n →
      (∀ slot item, t'.localItem? slot = some item ↔
        ∃ name i, slot = .name name ∧ t.LastBinding n parameters name i item) ∧
      (∀ name i, parameters[i]? = some (some name) →
        (∀ j, i < j → parameters[j]? ≠ some (some name)) →
        ((∀ item, t'.localItem? (.name name) = some item ↔ t.Gives n i item) ↔
          (∃ item, t.Gives n i item) ∨
            ∀ j item, parameters[j]? = some (some name) → ¬ t.Gives n j item)) ∧
      ∀ name ∈ captured, ∀ item, t'.localItem? (.name name) = some item →
        (item.source = .untraced ∧ t'.globalItem? (.of callId (.name name)) = some item) ∨
        ∃ i hops ending, item.source = .here (.argument i) ∧
          Follows [] (t.clearPending.stack, .argument i) hops ending ∧
          t'.globalItem? (.of callId (.name name)) =
            some ⟨item.value, .of t.stack.top.callId (.argument i)⟩ ∧
          Linked t'.global ending.key (.of t.stack.top.callId (.argument i)) hops ∧
          ((Slot.name name, item.value) :: hops.map Hop.shown).take historyLimit <+:
            (t'.trail (.of callId (.name name))).map shown := by
  intro t
  have horderly : t.Orderly := orderly_after ops
  have hfresh : t.nextId ∉ t.running := horderly.fresh
  have hs : t.clearPending.stack.Distinct := horderly.distinct
  -- nothing was announced, or the parameters are bound, or binding them fails and no call is entered
  rcases t.pushFrame_outcome parameters captured with
    ⟨hpending, hy⟩ | ⟨n, hpending, ⟨entries, g, hbinds, hy⟩ | ⟨e, g, -, hf⟩⟩
  · obtain ⟨rfl, rfl⟩ := hy.unique h
    refine ⟨rfl, rfl, rfl, fun _ => ⟨rfl, rfl⟩, fun n hn => ?_⟩
    rw [hpending] at hn
    cases hn
  · obtain ⟨rfl, rfl⟩ := hy.unique h
    refine ⟨rfl, rfl, rfl, fun hnone => ?_, fun n' hn => ?_⟩
    · rw [hpending] at hnone
      cases hnone
    · obtain rfl := Option.some.inj (hpending.symm.trans hn)
      have hentries : ∀ slot item, (t.begun entries g).localItem? slot = some item ↔
          ∃ name i, slot = .name name ∧ t.LastBinding n parameters name i item :=
        fun _ _ => hbinds.find?_iff
      have hnames : ∀ name item, (t.begun entries g).localItem? (.name name) = some item ↔
          ∃ i, t.LastBinding n parameters name i item := by
        intro name item
        simp [hentries]
      refine ⟨hentries, fun name i hposition hlast => ?_, fun name hcaptured item hitem => ?_⟩
      · simp only [hnames]
        exact lastBinding_iff_gives hposition hlast
      · cases hbinds.known hs hfresh hcaptured hitem with
        | omitted hsource hfind => exact .inl ⟨hsource, hfind⟩
        | passed hsource hfollows hfind hlinked =>
          exact .inr ⟨_, _, _, hsource, hfollows, hfind, hlinked,
            parameter_listed hs hfresh rfl hfollows hfind hlinked⟩
  · exact (h.not_fails hf).elim

theorem pushFrame_connects_sameName :
    let t := after [.record (.here (.argument 0)) (.number .nan) .untraced,
      .record (.here (.argument 1)) (.number .zero) .untraced, .announce 2]
    ∃ t', Yields (pushFrame [some "a", some "a"] ["a"]) t 3 t' ∧ t.passed? 2 1 = none ∧
      t'.localItem? (.name "a") = some ⟨.number .nan, .here (.argument 0)⟩ ∧
      t'.globalItem? (.of 3 (.name "a")) = some ⟨.number .nan, .of 2 (.argument 0)⟩ ∧
      ∃ hops ending, Follows [] (t.clearPending.stack, .argument 0) hops ending ∧
        Linked t'.global ending.key (.of 2 (.argument 0)) hops := by
  intro t
  let t' := t.perform (.pushFrame [some "a", some "a"] ["a"])
  have hy : Yields (pushFrame [some "a", some "a"] ["a"]) t 3 t' :=
    Yields.of_toOption (by decide +kernel)
  have hitem : t'.localItem? (.name "a") = some ⟨.number .nan, .here (.argument 0)⟩ := by
    decide +kernel
  have h := (pushFrame_connects _ _ _ hy).2.2.2.2 2 rfl
  refine ⟨t', hy, by decide +kernel, hitem, ?_⟩
  rcases h.2.2 "a" (by simp) _ hitem with ⟨hsource, -⟩ | ⟨i, hops, ending, hsource, hf, hg, hl, -⟩
  · cases hsource
  · cases hsource
    exact ⟨hg, hops, ending, hf, hl⟩

end Tracer

end CoercionTrace
