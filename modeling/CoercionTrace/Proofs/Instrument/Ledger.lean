import CoercionTrace.Proofs.Instrument.Hosts
import CoercionTrace.Proofs.Instrument.Names
import CoercionTrace.Proofs.Syntax.Output

/-!
# The ledger of a pass

Every temporary is drawn for the function around a construct, or for the program, and is pending
there until the body of the function is replaced, which declares it. Main statement: a pass keeps such
a ledger (`pass_kept`).
-/

namespace CoercionTrace

open Instrumentation InstrumentM

/-! ## Counting -/

def NameSupply.temporaries (n : NameSupply) (count : Nat) : List String :=
  (List.range' n.next count).map (n.nameOf .temporary)

theorem NameSupply.temporaries_nodup (n : NameSupply) (count : Nat) : (n.temporaries count).Nodup :=
  List.Nodup.map (fun _ _ h => (nameOf_injective h).2) List.nodup_range'

theorem NameSupply.temporaries_add (n : NameSupply) (count count' : Nat) :
    n.temporaries (count + count') =
      n.temporaries count ++ temporaries { n with next := n.next + count } count' := by
  rw [temporaries, temporaries, temporaries, ← List.range'_append_1, List.map_append]
  rfl

variable {s₀ s s' : Instrumentation} {done : List NodeId} {id f c : NodeId} {k : ScopeId}
  {host : Option ScopeId} {rep : Replacement}

theorem Instrumentation.Draws.counted (h : Draws (· = host) s s') :
    ∃ count, s'.names = { s.names with next := s.names.next + count } ∧
      s'.pending host = s.pending host ++ s.names.temporaries count ∧
      ∀ other, other ≠ host → s'.pending other = s.pending other := by
  induction h with
  | refl => exact ⟨0, rfl, by simp [NameSupply.temporaries], fun _ _ => rfl⟩
  | @step u drawn hdraw hP ih =>
    obtain ⟨count, hnames, hpending, hother⟩ := ih
    subst hP
    refine ⟨count + 1, ?_, ?_, fun other hne => ?_⟩
    · change (u.names.fresh .temporary).2 = _
      rw [hnames, NameSupply.fresh_eq]
      rfl
    · rw [pending_drawOne, if_pos rfl, hpending, NameSupply.temporaries_add, List.append_assoc, hnames]
      rfl
    · rw [pending_drawOne, if_neg (Ne.symm hne), hother other hne]

/-! ## The ledger -/

def drawnFor (drawn : List (Option ScopeId × String)) (host : Option ScopeId) : List String :=
  (drawn.filter fun d => d.1 = host).map Prod.snd

def namesFor (s₀ : Instrumentation) (drawn : List (Option ScopeId × String))
    (host : Option ScopeId) : List String :=
  (host.bind s₀.traceVariable?).toList ++ drawnFor drawn host

inductive Entitled (s₀ : Instrumentation) (drawn : List (Option ScopeId × String)) (id : NodeId) :
    Part → Prop
  | text (text : String) : Entitled s₀ drawn id (.text text)
  | node (c : NodeId) : Entitled s₀ drawn id (.node c)
  | temporary {name : String} : name ∈ drawnFor drawn (s₀.host? id) →
      Entitled s₀ drawn id (.used .temporary name)
  | traceId {f : NodeId} {k : ScopeId} {v : String} : f ∈ s₀.tree.ancestors id →
      s₀.scopes.scopeOf? f = some k → s₀.traceVariable? k = some v →
      Entitled s₀ drawn id (.used .traceId v)

structure Declares (s₀ : Instrumentation) (t : SyntaxTree) (f : NodeId) (k : ScopeId) (body : NodeId)
    (temporaries : List String) : Prop where
  framed : s₀.isInstrumented k = true → ∃ directives rest,
    (t.node body).replacement = some (.framedBody directives
      { enter := s₀.enterCall f (s₀.scopes.scope k), traceVariable := s₀.traceVariable? k,
        temporaries } rest (s₀.hookCall .leaveCall []))
  host : s₀.isInstrumented k = false → temporaries ≠ [] → ∃ directives rest,
    (t.node body).replacement = some (.hostBody directives temporaries rest)

/-- The state of a pass that has visited the nodes in `done` and drawn the temporaries in `drawn`. -/
structure Kept (s₀ : Instrumentation) (done : List NodeId) (drawn : List (Option ScopeId × String))
    (s : Instrumentation) : Prop where
  names : s.names = { s₀.names with next := s₀.names.next + drawn.length }
  numbered : drawn.map Prod.snd = s₀.names.temporaries drawn.length
  hosts : ∀ k name, (some k, name) ∈ drawn → ∃ f ∈ s₀.agenda, ∃ body, BodyOf s₀ f k body
  opened : ∀ host, (∀ f ∈ done, ∀ k, s₀.scopes.scopeOf? f = some k → host ≠ some k) →
    s.pending host = drawnFor drawn host
  closed : ∀ f ∈ done, ∀ k, s₀.scopes.scopeOf? f = some k → s.pending (some k) = []
  body : ∀ f ∈ done, ∀ k body, BodyOf s₀ f k body →
    Declares s₀ s.tree f k body (drawnFor drawn (some k))
  uses : ∀ d rep, (s.tree.node d).replacement = some rep → rep.IsConstruct →
    ∀ t, ∀ p ∈ rep.parts t d, Entitled s₀ drawn d p
  named : ∀ d rep, (s.tree.node d).replacement = some rep → ¬ rep.IsConstruct →
    ∃ f ∈ done, ∃ k, BodyOf s₀ f k d ∧ rep.names.Sublist (namesFor s₀ drawn (some k))

variable {drawn : List (Option ScopeId × String)}

theorem mem_drawnFor {name : String} : name ∈ drawnFor drawn host ↔ (host, name) ∈ drawn := by
  simp [drawnFor]

theorem drawnFor_append (drawn more : List (Option ScopeId × String)) (host : Option ScopeId) :
    drawnFor (drawn ++ more) host = drawnFor drawn host ++ drawnFor more host := by
  simp [drawnFor]

theorem drawnFor_map (names : List String) (host other : Option ScopeId) :
    drawnFor (names.map (Prod.mk host)) other = if host = other then names else [] := by
  simp only [drawnFor, List.filter_map, List.map_map]
  split
  · next h => simp [h, Function.comp_def]
  · next h => simp [h, Function.comp_def]

theorem Entitled.append {more : List (Option ScopeId × String)} {p : Part}
    (h : Entitled s₀ drawn id p) : Entitled s₀ (drawn ++ more) id p := by
  cases h with
  | text => exact .text _
  | node => exact .node _
  | temporary hm => exact .temporary (drawnFor_append drawn more _ ▸ List.mem_append_left _ hm)
  | traceId hf hk hv => exact .traceId hf hk hv

theorem Declares.replaces {t t' : SyntaxTree} {body : NodeId} {temporaries : List String}
    (h : Declares s₀ t f k body temporaries) (hr : t.Replaces c rep t') :
    Declares s₀ t' f k body temporaries := by
  have hkept : ∀ {r}, (t.node body).replacement = some r → (t'.node body).replacement = some r := by
    intro r hbody
    rw [hr.elsewhere body]
    · exact hbody
    · rintro rfl
      cases hr.before.symm.trans hbody
  refine ⟨fun hi => ?_, fun hi hne => ?_⟩
  · obtain ⟨directives, rest, hbody⟩ := h.framed hi
    exact ⟨directives, rest, hkept hbody⟩
  · obtain ⟨directives, rest, hbody⟩ := h.host hi hne
    exact ⟨directives, rest, hkept hbody⟩

/-! ## One visit -/

theorem Fixed.fits (h : Fixed s₀ s) (hf : s₀.scopes.Fits s₀.tree) : s.scopes.Fits s.tree where
  scope hk := by
    rw [h.scopes] at hk ⊢
    have hkind : s.tree.scopeKind = s₀.tree.scopeKind := by
      funext id
      have hasync : (s.tree.node id).isAsync = (s₀.tree.node id).isAsync :=
        (congrArg Node.isAsync (h.shape.node id) :)
      simp only [SyntaxTree.scopeKind, h.shape.kind, hasync]
    rw [h.shape.kind, hkind]
    exact hf.scope hk
  resolved hr := by
    rw [h.scopes] at hr ⊢
    rw [h.shape.ancestors]
    exact hf.resolved hr

theorem declared_of_identifierOrigin {v name : String}
    (h : s.identifierOrigin id = .ok (.call v name)) :
    ∃ k name here, s.scopes.resolution? id = some (.declared k name here) ∧
      s.traceVariable? k = some v := by
  unfold identifierOrigin at h
  dsimp only at h
  cases hr : s.scopes.resolution? id with
  | none => simp [hr] at h
  | some r =>
    rw [hr] at h
    split at h
    · cases h
    · next k name' here hd =>
      obtain rfl : r = .declared k name' here := hd
      split at h
      · cases h
      · split at h
        · cases h
        · split at h
          · next hv =>
            cases h
            exact ⟨k, name', here, rfl, hv⟩
          · cases h

theorem unvisited_of_ancestor (hw : s₀.tree.WellFormed) (hf : s₀.scopes.Fits s₀.tree)
    (hnot : ∀ f ∈ done, ¬ s₀.tree.Below f id) (hfid : f ∈ s₀.tree.ancestors id)
    (hk : s₀.scopes.scopeOf? f = some k) : ∀ g ∈ done, s₀.scopes.scopeOf? g ≠ some k := by
  intro g hg hgk
  obtain rfl := hf.scope_injective hgk hk
  exact hnot g hg (SyntaxTree.below_of_mem_ancestors hw.linked hfid).1

theorem ancestor_of_host (h : s₀.host? id = some k) :
    ∃ f ∈ s₀.tree.ancestors id, s₀.scopes.scopeOf? f = some k :=
  List.exists_of_findSome?_eq_some h

theorem not_leaf_of_handles {t : SyntaxTree} {r : Rule} (h : r.handles (t.kind id) = true) :
    ¬ t.IsLeaf id := by
  rintro ⟨-, hkind⟩
  simp only [List.mem_cons, List.not_mem_nil, or_false] at hkind
  rcases hkind with e | e | e <;> rw [e] at h <;> cases r <;> cases h

/-- What is used in the code for a construct was drawn for the function around it, or keeps the call
of a function around it. -/
theorem Supplied.entitled (hw : s₀.tree.WellFormed) (hf : s₀.scopes.Fits s₀.tree) (hfixed : Fixed s₀ s)
    (hid : (s₀.tree.kind id).isFunctionLike = false) {names : String → Prop} {p : Part}
    (hnames : ∀ name, names name → name ∈ drawnFor drawn (s₀.host? id))
    (h : Supplied s names id p) : Entitled s₀ drawn id p := by
  cases h with
  | text => exact .text _
  | node => exact .node _
  | temporary hname => exact .temporary (hnames _ hname)
  | @traceId i v name hi horigin =>
    have hws := hfixed.shape.wellFormed hw
    have hpath : s.tree.Path id i := by
      rcases hi with ⟨o, ho, rfl⟩ | hname
      · exact ho.path.unwrap
      · exact .of_mem (SyntaxTree.child?_mem hname)
    obtain ⟨k, name', here, hr, hv⟩ := declared_of_identifierOrigin horigin
    obtain ⟨f, hfi, hk⟩ := (hfixed.fits hf).resolved hr
    rw [← hfixed.shape.kind] at hid
    have hfid := ancestor_of_path hws (hfixed.fits hf) hid hpath hfi hk
    rw [hfixed.shape.ancestors] at hfid
    rw [hfixed.scopes] at hk
    rw [hfixed.traceVariable?] at hv
    exact .traceId hfid hk hv

theorem BodyForm.declares {body : NodeId} {result : Option Change}
    (h : BodyForm s id k body result) (hfixed : Fixed s₀ s)
    (htree : (result = none ∧ s'.tree = s.tree) ∨ ∃ rep, body < s.tree.size ∧
      result = some ⟨body, rep⟩ ∧ s.tree.Replaces body rep s'.tree) :
    Declares s₀ s'.tree id k body (s.pending (some k)) := by
  rcases htree with ⟨rfl, -⟩ | ⟨rep, hsize, rfl, hr⟩
  · cases h with
    | bare hi he =>
      rw [hfixed.isInstrumented] at hi
      refine ⟨fun hi' => ?_, fun _ hne => absurd he hne⟩
      rw [hi] at hi'
      cases hi'
  · have hat := hr.at_ hsize
    cases h with
    | framed hi =>
      rw [hfixed.isInstrumented] at hi
      rw [hfixed.enterCall, hfixed.hookCall, hfixed.traceVariable?, hfixed.scopes] at hat
      refine ⟨fun _ => ⟨_, _, hat⟩, fun hi' => ?_⟩
      rw [hi] at hi'
      cases hi'
    | host hi =>
      rw [hfixed.isInstrumented] at hi
      refine ⟨fun hi' => ?_, fun _ _ => ⟨_, _, hat⟩⟩
      rw [hi] at hi'
      cases hi'

namespace Kept

theorem start (s₀ : Instrumentation) (hfresh : s₀.tree.IsFresh)
    (hempty : ∀ host, s₀.pending host = []) : Kept s₀ [] [] s₀ where
  names := rfl
  numbered := rfl
  hosts k name hm := by cases hm
  opened host _ := hempty host
  closed f hf := by cases hf
  body f hf := by cases hf
  uses d rep hd := by
    rw [hfresh d] at hd
    cases hd
  named d rep hd := by
    rw [hfresh d] at hd
    cases hd

theorem pass_by (hf : s₀.scopes.Fits s₀.tree) (h : Kept s₀ done drawn s)
    (hid : (s₀.tree.kind id).isFunctionLike = false) (hnames : s'.names = s.names)
    (hpending : ∀ host, s'.pending host = s.pending host) (htree : s'.tree = s.tree) :
    Kept s₀ (done ++ [id]) drawn s' where
  names := hnames.trans h.names
  numbered := h.numbered
  hosts := h.hosts
  opened host ho := by
    rw [hpending]
    exact h.opened host fun f hf => ho f (List.mem_append_left _ hf)
  closed f hdone k hk := by
    rw [hpending]
    refine h.closed f ?_ k hk
    refine (List.mem_append.1 hdone).resolve_right fun hlast => ?_
    obtain rfl := List.mem_singleton.1 hlast
    rw [(hf.scope hk).1] at hid
    cases hid
  body f hdone k body hb := by
    rw [htree]
    refine h.body f ?_ k body hb
    refine (List.mem_append.1 hdone).resolve_right fun hlast => ?_
    obtain rfl := List.mem_singleton.1 hlast
    rw [(hf.scope hb.scope).1] at hid
    cases hid
  uses d rep hd := by
    rw [htree] at hd
    exact h.uses d rep hd
  named d rep hd hc := by
    rw [htree] at hd
    obtain ⟨f, hfd, hrest⟩ := h.named d rep hd hc
    exact ⟨f, List.mem_append_left _ hfd, hrest⟩

theorem rewrite (hw : s₀.tree.WellFormed) (hf : s₀.scopes.Fits s₀.tree) (hv : Visited s₀ s)
    (h : Kept s₀ done drawn s) (hagenda : id ∈ s₀.agenda)
    (hnot : ∀ f ∈ done, ¬ s₀.tree.Below f id)
    (hid : (s₀.tree.kind id).isFunctionLike = false) {r : Rule} {u : Instrumentation}
    (hhandles : r.handles (s₀.tree.kind id) = true) (hdraw : Draws (· = s.host? id) s u)
    (hform : Rewrites s (Drawn (· = s.host? id) u) id r rep)
    (hreplaces : s.tree.Replaces id rep s'.tree) (hs : s' = { u with tree := s'.tree }) :
    ∃ more, Kept s₀ done (drawn ++ more) s' := by
  have hfixed := hv.fixed
  have hsize : id < s.tree.size := hfixed.shape.size ▸ lt_size_of_handles hhandles
  obtain ⟨count, hnames, hpending, hother⟩ := hdraw.counted
  simp only [hfixed.host?] at hpending hother hform
  -- the temporaries are drawn for the function around the node, whose body is still to come
  have hopen : ∀ f ∈ done, ∀ k, s₀.scopes.scopeOf? f = some k → s₀.host? id ≠ some k := by
    intro f hfd k hk hhost
    obtain ⟨g, hg, hgk⟩ := ancestor_of_host hhost
    exact unvisited_of_ancestor hw hf hnot hg hgk f hfd hk
  have hnames' : s'.names = { s.names with next := s.names.next + count } := by
    rw [hs]
    exact hnames
  have hpending' : ∀ host, s'.pending host = u.pending host := by
    intro host
    rw [hs]
    rfl
  have hlength : (s.names.temporaries count).length = count := by simp [NameSupply.temporaries]
  refine ⟨(s.names.temporaries count).map (Prod.mk (s₀.host? id)), ?_⟩
  have hfor : ∀ host, drawnFor (drawn ++ (s.names.temporaries count).map (Prod.mk (s₀.host? id))) host
      = drawnFor drawn host ++ if s₀.host? id = host then s.names.temporaries count else [] := by
    intro host
    rw [drawnFor_append, drawnFor_map]
  exact {
    names := by
      rw [hnames', List.length_append, List.length_map, hlength, h.names]
      simp [Nat.add_assoc]
    numbered := by
      rw [List.map_append, h.numbered, List.length_append, List.length_map, hlength,
        NameSupply.temporaries_add, List.map_map, ← h.names]
      exact congrArg _ (List.map_id _)
    hosts := fun k name hm => by
      rcases List.mem_append.1 hm with hm | hm
      · exact h.hosts k name hm
      · obtain ⟨_, -, e⟩ := List.mem_map.1 hm
        obtain ⟨f, hfid, hk⟩ := ancestor_of_host (congrArg Prod.fst e)
        have hbelow := (SyntaxTree.below_of_mem_ancestors hw.linked hfid).1
        obtain ⟨body, hb, -⟩ :=
          body_of_agenda hw hf hagenda (not_leaf_of_handles hhandles) hk hfid
        exact ⟨f, agenda_of_below hw hagenda hbelow, body, hb⟩
    opened := fun host ho => by
      rw [hpending', hfor]
      by_cases hhost : s₀.host? id = host
      · rw [← hhost, hpending, if_pos rfl, h.opened (s₀.host? id) hopen]
      · rw [hother host (Ne.symm hhost), if_neg hhost, h.opened host ho, List.append_nil]
    closed := fun f hfd k hk => by
      rw [hpending', hother (some k) (Ne.symm (hopen f hfd k hk))]
      exact h.closed f hfd k hk
    body := fun f hfd k body hb => by
      rw [hfor, if_neg (hopen f hfd k hb.scope), List.append_nil]
      exact (h.body f hfd k body hb).replaces hreplaces
    uses := fun d rep' hd hc t p hp => by
      by_cases hdid : d = id
      · subst hdid
        rw [hreplaces.at_ hsize] at hd
        cases hd
        refine (hform.supplied t d p hp).entitled hw hf hfixed hid fun name hname => ?_
        obtain ⟨host, rfl, hm⟩ := hname
        rw [hpending, h.opened _ hopen] at hm
        rw [hfor, if_pos rfl]
        exact hm
      · rw [hreplaces.elsewhere d hdid] at hd
        exact (h.uses d rep' hd hc t p hp).append
    named := fun d rep' hd hc => by
      by_cases hdid : d = id
      · subst hdid
        rw [hreplaces.at_ hsize] at hd
        cases hd
        exact absurd hform.isConstruct hc
      · rw [hreplaces.elsewhere d hdid] at hd
        obtain ⟨f, hfd, k, hb, hnames⟩ := h.named d rep' hd hc
        refine ⟨f, hfd, k, hb, ?_⟩
        rw [namesFor, hfor, if_neg (hopen f hfd k hb.scope), List.append_nil]
        exact hnames }

theorem bodyChange (hf : s₀.scopes.Fits s₀.tree) (hv : Visited s₀ s) (h : Kept s₀ done drawn s)
    (hnot : ∀ f ∈ done, ¬ s₀.tree.Below f id) (hplain : (s₀.tree.kind id).IsPlainFunction)
    {body : NodeId} {result : Option Change}
    {u : Instrumentation} (hb : BodyChange s id k body result u) (hu : s' = { u with tree := s'.tree })
    (htree : (result = none ∧ s'.tree = s.tree) ∨ ∃ rep, body < s.tree.size ∧
      result = some ⟨body, rep⟩ ∧ s.tree.Replaces body rep s'.tree) :
    Kept s₀ (done ++ [id]) drawn s' := by
  have hfixed := hv.fixed
  obtain ⟨hscope, hkind, hchild, hform, hstate⟩ := hb
  rw [hfixed.scopes] at hscope hkind
  rw [hfixed.shape.child?] at hchild
  -- a scope belongs to one function, so the temporaries were not taken by an earlier body
  have hopen : ∀ f ∈ done, ∀ k', s₀.scopes.scopeOf? f = some k' → some k ≠ some k' := by
    rintro f hfd k' hk' ⟨⟩
    obtain rfl := hf.scope_injective hk' hscope
    exact hnot f hfd .refl
  have hpending : ∀ host, s'.pending host = if host = some k then [] else s.pending host := by
    intro host
    rw [hu, hstate]
    simp only [Instrumentation.pending]
    split
    · next e => rw [e, Table.find?_erase_self]; rfl
    · next e => rw [Table.find?_erase_ne _ (Ne.symm e)]
  have hall : s.pending (some k) = drawnFor drawn (some k) := h.opened _ hopen
  have hold : ∀ {f k' b names}, Declares s₀ s.tree f k' b names → Declares s₀ s'.tree f k' b names := by
    intro f k' b names hd
    rcases htree with ⟨-, e⟩ | ⟨rep, -, -, hr⟩
    · exact e ▸ hd
    · exact hd.replaces hr
  have hnew : Declares s₀ s'.tree id k body (drawnFor drawn (some k)) :=
    hall ▸ hform.declares hfixed htree
  exact {
    names := by
      rw [hu, hstate]
      exact h.names
    numbered := h.numbered
    hosts := h.hosts
    opened := fun host ho => by
      have hne := ho id (List.mem_append_right _ List.mem_cons_self) k hscope
      rw [hpending, if_neg hne]
      exact h.opened host fun f hfd => ho f (List.mem_append_left _ hfd)
    closed := fun f hfd k' hk' => by
      rw [hpending]
      split
      · rfl
      · next hne =>
        refine h.closed f ((List.mem_append.1 hfd).resolve_right fun hlast => hne ?_) k' hk'
        obtain rfl := List.mem_singleton.1 hlast
        rw [← hk', hscope]
    body := fun f hfd k' b hb => by
      rcases List.mem_append.1 hfd with hfd | hlast
      · exact hold (h.body f hfd k' b hb)
      · obtain rfl := List.mem_singleton.1 hlast
        obtain rfl := Option.some.inj (hscope.symm.trans hb.scope)
        obtain rfl := Option.some.inj (hchild.symm.trans hb.child)
        exact hnew
    uses := fun d rep' hd hc t p hp => by
      rcases htree with ⟨-, e⟩ | ⟨rep, hsize, rfl, hr⟩
      · exact h.uses d rep' (e ▸ hd) hc t p hp
      · by_cases hdb : d = body
        · subst hdb
          rw [hr.at_ hsize] at hd
          cases hd
          cases hform <;> cases hc
        · rw [hr.elsewhere d hdb] at hd
          exact h.uses d rep' hd hc t p hp
    named := fun d rep' hd hc => by
      have hmore : (∃ f ∈ done, ∃ k, BodyOf s₀ f k d ∧
          rep'.names.Sublist (namesFor s₀ drawn (some k))) →
          ∃ f ∈ done ++ [id], ∃ k, BodyOf s₀ f k d ∧
            rep'.names.Sublist (namesFor s₀ drawn (some k)) := by
        rintro ⟨f, hfd, hrest⟩
        exact ⟨f, List.mem_append_left _ hfd, hrest⟩
      rcases htree with ⟨-, e⟩ | ⟨rep, hsize, rfl, hr⟩
      · exact hmore (h.named d rep' (e ▸ hd) hc)
      · by_cases hdb : d = body
        · subst hdb
          refine ⟨id, List.mem_append_right _ List.mem_cons_self, k, ⟨hplain, hscope, hkind, hchild⟩, ?_⟩
          rw [hr.at_ hsize] at hd
          cases hd
          cases hform with
          | framed =>
            change ((s.traceVariable? k).toList ++ s.pending (some k)).Sublist _
            rw [hfixed.traceVariable?, hall]
            exact List.Sublist.refl _
          | host =>
            change (s.pending (some k)).Sublist _
            rw [hall]
            exact List.sublist_append_right _ _
        · rw [hr.elsewhere d hdb] at hd
          exact hmore (h.named d rep' hd hc) }

theorem plain_of_agenda (hw : s₀.tree.WellFormed) (hf : s₀.scopes.Fits s₀.tree)
    (hid : id ∈ s₀.agenda) (hlike : (s₀.tree.kind id).isFunctionLike = true) :
    (s₀.tree.kind id).IsPlainFunction ∧
      ∃ k, s₀.scopes.scopeOf? id = some k ∧ (s₀.scopes.scope k).kind = .function := by
  have hclear := clear_of_agenda hw hid .refl
  cases hk : s₀.scopes.scopeOf? id with
  | none => simp [isPassthrough, hlike, hk] at hclear
  | some k =>
    obtain ⟨hplain, hkind⟩ := plain_of_clear hf hk hclear
    exact ⟨hplain, k, rfl, hkind⟩

theorem visit (hw : s₀.tree.WellFormed) (hf : s₀.scopes.Fits s₀.tree) (hv : Visited s₀ s)
    (h : Kept s₀ done drawn s) (hid : id ∈ s₀.agenda) (hnot : ∀ f ∈ done, ¬ s₀.tree.Below f id)
    (hvisit : Yields (visit Rule.all id) s () s') :
    ∃ more, Kept s₀ (done ++ [id]) (drawn ++ more) s' := by
  have hfixed := hv.fixed
  cases hlike : (s₀.tree.kind id).isFunctionLike with
  | false =>
    have hhandles : Rule.body.handles (s.tree.kind id) ≠ true := by
      rw [hfixed.shape.kind]
      intro hbody
      simp only [Rule.handles, Bool.or_eq_true, beq_iff_eq] at hbody
      rcases hbody with e | e <;> rw [e] at hlike <;> cases hlike
    have hself : HostsIn (· = s.host? id) s id :=
      hostsIn_self (hv.wellFormed hw) (hfixed.fits hf) (hfixed.shape.kind ▸ hlike)
    cases visit_ok hvisit hself with
    | idle _ hs =>
      refine ⟨[], ?_⟩
      rw [List.append_nil]
      exact h.pass_by hf hlike (by rw [hs]) (fun _ => by rw [hs]; rfl) (by rw [hs])
    | rewrite _ hr _ hdraw hform hreplaces hs =>
      obtain ⟨more, hmore⟩ := h.rewrite hw hf hv hid hnot hlike (hfixed.shape.kind ▸ hr) hdraw hform
        hreplaces hs
      exact ⟨more, hmore.pass_by hf hlike rfl (fun _ => rfl) rfl⟩
    | bare hb => exact absurd hb hhandles
    | body hb => exact absurd hb hhandles
  | true =>
    obtain ⟨hplain, k, hk, hkind⟩ := plain_of_agenda hw hf hid hlike
    have hhandles : Rule.body.handles (s.tree.kind id) = true := by
      rw [hfixed.shape.kind]
      simpa [Rule.handles, Kind.IsPlainFunction] using hplain
    refine ⟨[], ?_⟩
    rw [List.append_nil]
    cases visit_ok hvisit (hostsIn_true s id) with
    | idle hidle _ =>
      obtain ⟨number, hn, hne⟩ := hidle (by decide) hhandles
      rw [hfixed.scopes] at hn hne
      obtain rfl := Option.some.inj (hk.symm.trans hn)
      exact absurd hkind hne
    | rewrite hr hother => exact absurd (handles_unique hother hhandles) hr
    | bare _ hb =>
      have htree : s'.tree = s.tree := by rw [hb.state]
      exact h.bodyChange hf hv hnot hplain hb rfl (.inl ⟨rfl, htree⟩)
    | body _ hb hreplaces hs =>
      have hsize := ((hv.wellFormed hw).child (SyntaxTree.child?_mem hb.child)).2.1
      exact h.bodyChange hf hv hnot hplain hb hs (.inr ⟨_, hsize, rfl, hreplaces⟩)

end Kept

theorem pass_kept (hw : s₀.tree.WellFormed) (hfresh : s₀.tree.IsFresh)
    (hf : s₀.scopes.Fits s₀.tree) (hempty : ∀ host, s₀.pending host = [])
    (h : Yields (pass Rule.all) s₀ () s) : ∃ drawn, Kept s₀ s₀.agenda drawn s := by
  have hkept : Visited s₀ s ∧ ∃ drawn, Kept s₀ s₀.agenda drawn s := by
    refine visitAll_induction (Q := fun done u => Visited s₀ u ∧ ∃ drawn, Kept s₀ done drawn u)
      ⟨.start, [], .start s₀ hfresh hempty⟩ ?_ (Yields.get_bind_iff.1 h)
    rintro done id rest u u' hagenda ⟨hv, drawn, hkept⟩ hvisit
    have hid : id ∈ s₀.agenda := by
      rw [hagenda]
      exact List.mem_append_right _ List.mem_cons_self
    obtain ⟨more, hmore⟩ := hkept.visit hw hf hv hid (not_below_of_agenda hw hagenda) hvisit
    exact ⟨hv.visit hvisit, drawn ++ more, hmore⟩
  exact hkept.2

end CoercionTrace
