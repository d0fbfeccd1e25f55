import CoercionTrace.CommandLine.Arguments

/-!
# What arguments give

Arguments give files, values of options and the switch for debugging. Main statement: a request that
is read from arguments has one input, and for each option the one value that they give, if they give
one (`asks_of_read`).
-/

namespace CoercionTrace

def Linkage.flag : Linkage → String
  | .embed => "embed"
  | .require => "require"
  | .preexisting => "none"

theorem Arguments.flag_of_linkage? {text : String} {l : Linkage} (h : linkage? text = some l) :
    l.flag = text := by
  unfold linkage? at h
  split at h <;> cases h <;> rfl

def Request.value? (r : Request) : ValueOption → Option String
  | .output => r.output
  | .hookName => r.hookName
  | .linkage => r.linkage.map Linkage.flag
  | .moduleName => r.moduleName
  | .runtime => r.runtime
  | .config => r.config

namespace Arguments

inductive Given
  | file (path : String)
  | value (o : ValueOption) (text : String)
  | debug

/-- What arguments give, in order; an option may be waiting for its value, and after a double dash
everything is a file. -/
inductive Gives : Option ValueOption → Bool → List String → List Given → Prop
  | nil {filesOnly : Bool} : Gives none filesOnly [] []
  | behindDashes {waiting : Option ValueOption} {a : String} {args : List String} {gs : List Given}
      (hrest : Gives none true args gs) : Gives waiting true (a :: args) (.file a :: gs)
  | valueNext {o : ValueOption} {a v : String} {args : List String} {gs : List Given}
      (ha : word a = .plain v) (hrest : Gives none false args gs) :
      Gives (some o) false (a :: args) (.value o v :: gs)
  | file {a path : String} {args : List String} {gs : List Given} (ha : word a = .plain path)
      (hrest : Gives none false args gs) : Gives none false (a :: args) (.file path :: gs)
  | option {o : ValueOption} {a : String} {args : List String} {gs : List Given}
      (ha : word a = .option o none) (hrest : Gives (some o) false args gs) :
      Gives none false (a :: args) gs
  | valueBehind {o : ValueOption} {a v : String} {args : List String} {gs : List Given}
      (ha : word a = .option o (some v)) (hrest : Gives none false args gs) :
      Gives none false (a :: args) (.value o v :: gs)
  | debug {a : String} {args : List String} {gs : List Given} (ha : word a = .debug)
      (hrest : Gives none false args gs) : Gives none false (a :: args) (.debug :: gs)
  | doubleDash {a : String} {args : List String} {gs : List Given} (ha : word a = .doubleDash)
      (hrest : Gives none true args gs) : Gives none false (a :: args) gs

def Given.file? : Given → Option String
  | .file path => some path
  | _ => none

def Given.value? (o : ValueOption) : Given → Option String
  | .value o' text => if o' = o then some text else none
  | _ => none

def Asks (args : List String) (input : String) (r : Request) : Prop :=
  ∃ gs, Gives none false args gs ∧ gs.filterMap Given.file? = [input] ∧
    ∀ o, gs.filterMap (Given.value? o) = (r.value? o).toList

variable {r r' : Request} {args : List String} {input text : String} {o : ValueOption}
  {waiting : Option ValueOption} {filesOnly : Bool}

structure Adds (r : Request) (gs : List Given) (r' : Request) : Prop where
  input : r'.input.toList = r.input.toList ++ gs.filterMap Given.file?
  value : ∀ o, (r'.value? o).toList = (r.value? o).toList ++ gs.filterMap (Given.value? o)

theorem Adds.cons {g : Given} {gs : List Given} {next : Request} (hfirst : Adds r [g] next)
    (hrest : Adds next gs r') : Adds r (g :: gs) r' := by
  have happend {α : Type} (f : Given → Option α) :
      (g :: gs).filterMap f = [g].filterMap f ++ gs.filterMap f := List.filterMap_append (l := [g])
  refine ⟨?_, fun o => ?_⟩
  · rw [hrest.input, hfirst.input, List.append_assoc, happend]
  · rw [hrest.value, hfirst.value, List.append_assoc, happend]

theorem adds_setInput {file : String} (h : setInput r file = some r') : Adds r [.file file] r' := by
  rw [setInput] at h
  split at h
  · cases h
  · next hnone =>
    cases h
    refine ⟨by simp_all [Given.file?], fun o => ?_⟩
    cases o <;> simp [Request.value?, Given.value?]

theorem adds_setOption (h : setOption r text o = some r') : Adds r [.value o text] r' := by
  cases o with
  | linkage =>
    rw [setOption] at h
    split at h
    · cases h
    · next hnone =>
      obtain ⟨l, hl, rfl⟩ := Option.map_eq_some_iff.1 h
      refine ⟨by simp [Given.file?], fun o' => ?_⟩
      cases o' <;> simp_all [Request.value?, Given.value?, flag_of_linkage? hl]
  | _ =>
    rw [setOption] at h
    split at h
    · cases h
    · next hnone =>
      cases h
      refine ⟨by simp [Given.file?], fun o' => ?_⟩
      cases o' <;> simp_all [Request.value?, Given.value?]

theorem adds_debug (r : Request) : Adds r [.debug] { r with debug := true } := by
  refine ⟨by simp [Given.file?], fun o => ?_⟩
  cases o <;> simp [Request.value?, Given.value?]

theorem readFrom_gives (h : readFrom r waiting filesOnly args = .run input r') :
    r'.input = some input ∧ ∃ gs, Gives waiting filesOnly args gs ∧ Adds r gs r' := by
  fun_induction readFrom r waiting filesOnly args with
  | case1 r filesOnly input hinput =>
    cases h
    exact ⟨hinput, [], .nil, by simp, by simp⟩
  | case3 r waiting a args next hnext ih =>
    obtain ⟨hinput, gs, hgives, hadds⟩ := ih h
    exact ⟨hinput, _, .behindDashes hgives, (adds_setInput hnext).cons hadds⟩
  | case5 r filesOnly a args hfiles o v ha next hnext ih =>
    obtain ⟨hinput, gs, hgives, hadds⟩ := ih h
    rw [eq_false_of_ne_true hfiles]
    exact ⟨hinput, _, .valueNext ha hgives, (adds_setOption hnext).cons hadds⟩
  | case8 r filesOnly a args hfiles path ha next hnext ih =>
    obtain ⟨hinput, gs, hgives, hadds⟩ := ih h
    rw [eq_false_of_ne_true hfiles]
    exact ⟨hinput, _, .file ha hgives, (adds_setInput hnext).cons hadds⟩
  | case10 r filesOnly a args hfiles o ha ih =>
    obtain ⟨hinput, gs, hgives, hadds⟩ := ih h
    rw [eq_false_of_ne_true hfiles]
    exact ⟨hinput, gs, .option ha hgives, hadds⟩
  | case11 r filesOnly a args hfiles o v ha next hnext ih =>
    obtain ⟨hinput, gs, hgives, hadds⟩ := ih h
    rw [eq_false_of_ne_true hfiles]
    exact ⟨hinput, _, .valueBehind ha hgives, (adds_setOption hnext).cons hadds⟩
  | case14 r filesOnly a args hfiles ha _ ih =>
    obtain ⟨hinput, gs, hgives, hadds⟩ := ih h
    rw [eq_false_of_ne_true hfiles]
    exact ⟨hinput, _, .debug ha hgives, (adds_debug r).cons hadds⟩
  | case17 r filesOnly a args hfiles ha ih =>
    obtain ⟨hinput, gs, hgives, hadds⟩ := ih h
    rw [eq_false_of_ne_true hfiles]
    exact ⟨hinput, gs, .doubleDash ha hgives, hadds⟩
  | _ => cases h

theorem asks_of_read (h : read args = .run input r) : Asks args input r := by
  obtain ⟨hinput, gs, hgives, hadds⟩ := readFrom_gives h
  refine ⟨gs, hgives, ?_, fun o => ?_⟩
  · simpa [hinput] using hadds.input.symm
  · have hvalue := hadds.value o
    cases o <;> simpa [Request.value?] using hvalue.symm

end Arguments

end CoercionTrace
