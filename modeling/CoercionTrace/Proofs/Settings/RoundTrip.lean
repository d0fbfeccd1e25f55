import CoercionTrace.Proofs.Document.Layout
import CoercionTrace.Settings.Loading

/-!
# Settings written and read again

Main statement: settings without a text of the runtime library are what their own file denotes, and
so are the settings that any accepted file denotes (`parse_write`).
-/

namespace CoercionTrace

namespace CheckConfig

variable {base c : CheckConfig}

theorem ext_override (h : ∀ k, base.override k = c.override k) : base = c := by
  cases base
  cases c
  rw [CheckConfig.mk.injEq]
  exact funext h

def entriesOf (c : CheckConfig) (kinds : List CheckKind) : List (CheckKind × Severity) :=
  kinds.filterMap fun k => (c.override k).map fun s => (k, s)

def setAll (base : CheckConfig) (entries : List (CheckKind × Severity)) : CheckConfig :=
  entries.foldl (fun c e => c.set e.1 e.2) base

theorem override_setAll (base c : CheckConfig) (kinds : List CheckKind) (k : CheckKind) :
    (base.setAll (c.entriesOf kinds)).override k =
      if k ∈ kinds then (c.override k).or (base.override k) else base.override k := by
  induction kinds generalizing base with
  | nil => simp [entriesOf, setAll]
  | cons first kinds ih =>
    -- Only a check that has an override of its own changes what is set so far.
    cases hfirst : c.override first with
    | none =>
      have hskip : c.entriesOf (first :: kinds) = c.entriesOf kinds := by simp [entriesOf, hfirst]
      rw [hskip, ih]
      by_cases hk : k = first
      · simp [hk, hfirst]
      · simp [hk]
    | some s =>
      have hset : base.setAll (c.entriesOf (first :: kinds)) =
          (base.set first s).setAll (c.entriesOf kinds) := by simp [entriesOf, setAll, hfirst]
      rw [hset, ih]
      by_cases hk : k = first
      · simp [hk, hfirst, set]
      · simp [hk, set]

theorem setAll_entries (c : CheckConfig) : setAll {} c.entries = c := by
  apply ext_override
  intro k
  have hall := override_setAll {} c CheckKind.all k
  rw [if_pos (CheckKind.mem_all k), Option.or_none] at hall
  exact hall

end CheckConfig

namespace Settings

variable {α : Type} {fields : List (Field α)} {P : α → Prop} {r r' : α} {s : Settings} {d : Document}

theorem decodeChecks_entries (base : CheckConfig) (entries : List (CheckKind × Severity)) :
    decodeChecks base (entries.map fun e => (some e.1.key, .string (some e.2.key))) =
      some (base.setAll entries) := by
  induction entries generalizing base with
  | nil => rfl
  | cons e entries ih =>
    simp [decodeChecks, choice?, CheckKind.ofKey?_key, Severity.ofKey?_key, ih, CheckConfig.setAll]

theorem checks?_document (c : CheckConfig) : checks? c.document = some c := by
  rw [CheckConfig.document, checks?, decodeChecks_entries, CheckConfig.setAll_entries]

theorem decode_instrumentDocument {o : InstrumentOptions} (h : o.runtimeSource = none) :
    decodeRecord instrumentFields {} (instrumentDocument o) = some o := by
  obtain ⟨hookName, linkage, moduleName, runtimeSource⟩ := o
  cases h
  simp [instrumentDocument, decodeRecord, decodeNamed, instrumentFields, text?, choice?,
    linkageOfKey?_linkageKey]

theorem ofDocument?_document (h : s.instrument.runtimeSource = none) :
    ofDocument? s.document = some s := by
  obtain ⟨o, c, path⟩ := s
  have hinstrument : decodeRecord instrumentFields {} (instrumentDocument o) = some o :=
    decode_instrumentDocument h
  simp only [document, ofDocument?, decodeRecord.eq_1]
  cases path <;> simp [decodeNamed, fields, hinstrument, checks?_document, optionalText?]

theorem textual_document (s : Settings) : s.document.Textual := by
  have hstring : ∀ text, (Document.string (some text)).Textual := Document.Textual.string
  have hinstrument : (instrumentDocument s.instrument).Textual := by
    apply Document.Textual.object
    · simp
    · simp [hstring]
  have hchecks : s.checks.document.Textual := by
    apply Document.Textual.object
    · intro e he
      obtain ⟨_, -, rfl⟩ := List.mem_map.1 he
      rfl
    · intro e he
      obtain ⟨_, -, rfl⟩ := List.mem_map.1 he
      exact hstring _
  apply Document.Textual.object
  · simp
  · cases hpath : s.runtimePath with
    | none => simp [hinstrument, hchecks, Document.Textual.null]
    | some p => simp [hinstrument, hchecks, hstring]

def Keeps (fields : List (Field α)) (P : α → Prop) : Prop :=
  ∀ f ∈ fields, ∀ d r r', P r → f.decode d r = some r' → P r'

theorem decodeNamed_keeps (h : Keeps fields P) {seen : List String}
    {members : List (Option String × Document)} (hr : P r)
    (hd : decodeNamed fields seen r members = some r') : P r' := by
  fun_induction decodeNamed fields seen r members with
  | case1 => exact Option.some.inj hd ▸ hr
  | case2 => cases hd
  | case3 _ _ _ _ _ _ ih => exact ih hr hd
  | case4 => cases hd
  | case5 seen r name d rest f hfind _ ih =>
    obtain ⟨next, hnext, hd⟩ := Option.bind_eq_some_iff.1 hd
    exact ih next (h f (List.mem_of_find?_eq_some hfind) d r next hr hnext) hd

theorem decodePositional_keeps (h : Keeps fields P) {elements : List Document} (hr : P r)
    (hd : decodePositional r fields elements = some r') : P r' := by
  fun_induction decodePositional r fields elements with
  | case1 => exact Option.some.inj hd ▸ hr
  | case2 => cases hd
  | case3 r f fields d rest ih =>
    obtain ⟨next, hnext, hd⟩ := Option.bind_eq_some_iff.1 hd
    have hkept := h f List.mem_cons_self d r next hr hnext
    exact ih next (fun f hf => h f (List.mem_cons_of_mem _ hf)) hkept hd

theorem decodeRecord_keeps (h : Keeps fields P) (hr : P r) (hd : decodeRecord fields r d = some r') :
    P r' := by
  cases d with
  | object members => exact decodeNamed_keeps h hr hd
  | array elements => exact decodePositional_keeps h hr hd
  | _ => cases hd

theorem keeps_runtimeSource : Keeps instrumentFields fun o => o.runtimeSource = none := by
  intro f hf d o o' ho hd
  simp only [instrumentFields, List.mem_cons, List.not_mem_nil, or_false] at hf
  rcases hf with rfl | rfl | rfl <;>
    · obtain ⟨_, -, rfl⟩ := Option.map_eq_some_iff.1 hd
      exact ho

theorem keeps_noSource : Keeps Settings.fields fun s => s.instrument.runtimeSource = none := by
  intro f hf d s s' hs hd
  simp only [Settings.fields, List.mem_cons, List.not_mem_nil, or_false] at hf
  rcases hf with rfl | rfl | rfl
  · obtain ⟨o, ho, rfl⟩ := Option.map_eq_some_iff.1 hd
    have hsource := decodeRecord_keeps keeps_runtimeSource rfl ho
    exact hsource
  · obtain ⟨c, -, rfl⟩ := Option.map_eq_some_iff.1 hd
    exact hs
  · obtain ⟨path, -, rfl⟩ := Option.map_eq_some_iff.1 hd
    exact hs

theorem runtimeSource_of_parse {text : String} (h : parse text = .ok s) :
    s.instrument.runtimeSource = none := by
  rw [parse] at h
  split at h
  · next s' hread =>
    cases h
    obtain ⟨d, -, hd⟩ := Option.bind_eq_some_iff.1 hread
    have hsource := decodeRecord_keeps keeps_noSource rfl hd
    exact hsource
  · cases h

theorem read?_write (h : s.instrument.runtimeSource = none) : read? s.write = some s := by
  rw [read?, write, Document.read?_pretty (textual_document s), Option.bind_some,
    ofDocument?_document h]

/-- Whatever order, omissions and spellings a file has, the file that is written of its settings
denotes the same. -/
theorem parse_write :
    (∀ s : Settings, s.instrument.runtimeSource = none → parse s.write = .ok s) ∧
      ∀ text s, parse text = .ok s → parse s.write = .ok s := by
  have hwrite : ∀ s : Settings, s.instrument.runtimeSource = none → parse s.write = .ok s := by
    intro s h
    rw [parse, read?_write h]
  exact ⟨hwrite, fun text s h => hwrite s (runtimeSource_of_parse h)⟩

theorem parse_write_spellings :
    let text := "\x7b\"checks\":\x7b\"W2\":\"warn\",\"E2\":\"ignore\"\x7d,\"instrument\":[\"R\",\"none\"]\x7d"
    ∃ s : Settings, parse text = .ok s ∧ s.instrument = ⟨"R", .preexisting, "jsane", none⟩ ∧
      s.checks.severity .notCallable = .ignore ∧ parse s.write = .ok s ∧
      parse (write { runtimePath := some "lib.js" }) = .ok { runtimePath := some "lib.js" } := by
  intro text
  let s : Settings :=
    { instrument := ⟨"R", .preexisting, "jsane", none⟩,
      checks := (({} : CheckConfig).set .notCallable .warn).set .notCallable .ignore }
  have hread : read? text = some s := by decide +kernel
  have hparse : parse text = .ok s := by rw [parse, hread]
  have hseverity : s.checks.severity .notCallable = .ignore := CheckConfig.severity_set_self _ _ _
  exact ⟨s, hparse, rfl, hseverity, parse_write.2 text s hparse, parse_write.1 _ rfl⟩

end Settings

end CoercionTrace
