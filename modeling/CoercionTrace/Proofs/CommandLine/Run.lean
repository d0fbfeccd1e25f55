import CoercionTrace.CommandLine.Run
import CoercionTrace.Proofs.CommandLine.Arguments
import CoercionTrace.Proofs.Files.Tree
import CoercionTrace.Proofs.Settings.RoundTrip
import CoercionTrace.Proofs.Syntax.WellFormed

/-!
# Runs over trees of files

What a run reads, says and writes. Main statement: a run is the library under the settings with the
given options on top. Where the library fails, nothing is printed and no file changes; where it
succeeds, its diagnostics are the warnings, and its code is printed or is what the named file holds,
unless that cannot be written (`perform_library`).
-/

namespace CoercionTrace

inductive FileUse
  | read (path : String)
  | write (path text : String)

def FileTree.logged : FileAccess (StateT (List FileUse) (StateM FileTree)) where
  read path := do
    modify (· ++ [.read path])
    FileTree.access.read path
  write path text := do
    modify (· ++ [.write path text])
    FileTree.access.write path text

variable {α β : Type} {t t' t'' : FileTree} {a : α} {b : β} {uses more : List FileUse}
  {path text : String}

/-- An action on a tree has a result and leaves a tree behind, and so has the same action with the uses
of files noted. -/
structure Runs (action : StateM FileTree α) (noted : StateT (List FileUse) (StateM FileTree) α)
    (t : FileTree) (uses : List FileUse) (a : α) (t' : FileTree) : Prop where
  plain : action.run t = (a, t')
  logged : ∀ log, (noted.run log).run t = ((a, log ++ uses), t')

namespace Runs

theorem pure (a : α) (t : FileTree) : Runs (Pure.pure a) (Pure.pure a) t [] a t := by
  refine ⟨rfl, fun log => ?_⟩
  rw [List.append_nil]
  rfl

theorem bind {x : StateM FileTree α} {x' : StateT (List FileUse) (StateM FileTree) α}
    {f : α → StateM FileTree β} {f' : α → StateT (List FileUse) (StateM FileTree) β}
    (hx : Runs x x' t uses a t') (hf : Runs (f a) (f' a) t' more b t'') :
    Runs (x >>= f) (x' >>= f') t (uses ++ more) b t'' := by
  constructor
  · rw [StateT.run_bind, hx.plain]
    exact hf.plain
  · intro log
    rw [StateT.run_bind, StateT.run_bind, hx.logged, ← List.append_assoc]
    exact hf.logged (log ++ uses)

theorem read {f : Except FileError String → StateM FileTree β}
    {f' : Except FileError String → StateT (List FileUse) (StateM FileTree) β}
    (hf : Runs (f (t.read path)) (f' (t.read path)) t uses b t') :
    Runs (FileTree.access.read path >>= f) (FileTree.logged.read path >>= f') t (.read path :: uses) b
      t' := by
  have hread : Runs (FileTree.access.read path) (FileTree.logged.read path) t [.read path] (t.read path)
      t := ⟨rfl, fun _ => rfl⟩
  exact hread.bind hf

theorem write {e : Except FileError Unit} (h : (FileTree.access.write path text).run t = (e, t')) :
    Runs (FileTree.access.write path text) (FileTree.logged.write path text) t [.write path text] e t' := by
  refine ⟨h, fun log => ?_⟩
  have hnoted : ((FileTree.logged.write path text).run log).run t =
      (fun p => ((p.1, log ++ [.write path text]), p.2)) ((FileTree.access.write path text).run t) := rfl
  rw [hnoted, h]

end Runs

namespace Request

variable {r : Request} {s : Settings} {input : String}

def base (r : Request) (t : FileTree) : Except SettingsError Settings :=
  match r.config with
  | none => .ok {}
  | some path => match t.read path with
    | .ok text => Settings.parse text
    | .error e => .error (.unreadable path e)

def laidOver (r : Request) (s : Settings) : InstrumentOptions :=
  { hookName := r.hookName.getD s.instrument.hookName
    linkage := r.linkage.getD s.instrument.linkage
    moduleName := r.moduleName.getD s.instrument.moduleName }

def runtimeFiles (r : Request) (s : Settings) : List String :=
  if (r.laidOver s).linkage = .embed then (r.runtime.or s.runtimePath).toList else []

def runtimeText (r : Request) (s : Settings) (t : FileTree) : Except SettingsError (Option String) :=
  if (r.laidOver s).linkage = .embed then
    match r.runtime.or s.runtimePath with
    | none => .error .noRuntimePath
    | some path => match t.read path with
      | .ok text => .ok (some text)
      | .error e => .error (.unreadable path e)
  else .ok none

theorem runs_load (t : FileTree) (path : String) :
    Runs (Settings.load FileTree.access path) (Settings.load FileTree.logged path) t [.read path]
      (match t.read path with
        | .ok text => Settings.parse text
        | .error e => .error (.unreadable path e)) t := by
  apply Runs.read
  cases t.read path <;> exact Runs.pure _ _

theorem runs_settings (r : Request) (t : FileTree) :
    Runs (r.settings FileTree.access) (r.settings FileTree.logged) t (r.config.toList.map .read)
      ((r.base t).map r.overlay) t := by
  unfold settings base
  cases r.config with
  | none => exact Runs.pure _ _
  | some path => exact (runs_load t path).bind (Runs.pure _ _)

theorem runs_resolve (h : s.instrument.runtimeSource = none) (r : Request) (t : FileTree) :
    Runs ((r.overlay s).resolve FileTree.access) ((r.overlay s).resolve FileTree.logged) t
      ((r.runtimeFiles s).map .read)
      ((r.runtimeText s t).map fun source => { r.laidOver s with runtimeSource := source }) t := by
  have hoptions : (r.overlay s).instrument = r.laidOver s := by
    simp [overlay, laidOver, h]
  have hpath : (r.overlay s).runtimePath = r.runtime.or s.runtimePath := rfl
  unfold Settings.resolve runtimeFiles runtimeText
  rw [hoptions, hpath]
  -- The text of the library is not there yet, so the linkage alone decides whether it is read.
  by_cases hembed : (r.laidOver s).linkage = .embed
  · have hneeded : (decide ((r.laidOver s).linkage ≠ .embed) || (r.laidOver s).runtimeSource.isSome) =
        false := by rw [hembed]; rfl
    simp only [hneeded, if_pos hembed]
    cases r.runtime.or s.runtimePath with
    | none => exact Runs.pure _ _
    | some path =>
      dsimp only
      apply Runs.read
      cases t.read path <;> exact Runs.pure _ _
  · have hneeded : (decide ((r.laidOver s).linkage ≠ .embed) || (r.laidOver s).runtimeSource.isSome) =
        true := by simp [hembed]
    simp only [hneeded, if_neg hembed]
    exact Runs.pure _ _

theorem runtimeSource_of_base (h : r.base t = .ok s) : s.instrument.runtimeSource = none := by
  unfold base at h
  split at h
  · cases h
    rfl
  · split at h
    · exact Settings.runtimeSource_of_parse h
    · cases h

def optionReadings (r : Request) (t : FileTree) : List String :=
  r.config.toList ++ match r.base t with
    | .error _ => []
    | .ok s => r.runtimeFiles s

def optionsOn (r : Request) (t : FileTree) : Except SettingsError InstrumentOptions :=
  (r.base t).bind fun s =>
    (r.runtimeText s t).map fun source => { r.laidOver s with runtimeSource := source }

theorem runs_options (r : Request) (t : FileTree) :
    Runs (r.options FileTree.access) (r.options FileTree.logged) t ((r.optionReadings t).map .read)
      (r.optionsOn t) t := by
  rw [optionReadings, List.map_append]
  refine (runs_settings r t).bind ?_
  rw [optionsOn]
  cases hbase : r.base t with
  | error e => exact Runs.pure _ _
  | ok s => exact runs_resolve (runtimeSource_of_base hbase) r t

def readings (r : Request) (input : String) (t : FileTree) : List String :=
  r.optionReadings t ++ match r.optionsOn t with
    | .error _ => []
    | .ok _ => [input]

def library (r : Request) (input : String) (grammar : String → String → Concrete) (t : FileTree) :
    Except Failure Instrumented := do
  let options ← (r.optionsOn t).mapError .settings
  let text ← (t.read input).mapError (.unreadable input)
  (instrument input text.toList (grammar input text) options).mapError .instrument

theorem library_of_options {grammar : String → String → Concrete} {o : InstrumentOptions}
    (ho : r.optionsOn t = .ok o) (htext : t.read input = .ok text) :
    r.library input grammar t =
      (instrument input text.toList (grammar input text) o).mapError .instrument := by
  rw [library, ho, htext]
  rfl

/-- What becomes of code: the named file holds it, if it can be written, or it is printed. -/
def Delivered (r : Request) (code : String) (t : FileTree) (uses : List FileUse) (outcome : Outcome)
    (t' : FileTree) : Prop :=
  match r.output with
  | none => outcome.exitCode = 0 ∧ outcome.stdout = code ∧ uses = [] ∧ t' = t
  | some path => outcome.stdout = "" ∧ uses = [.write path code] ∧ match t.write path code with
    | .ok _ => outcome.exitCode = 0 ∧ t.Written t' path code
    | .error e => outcome.exitCode = 1 ∧ outcome.failure? = some (.unwritable path e) ∧ t' = t

theorem runs_deliver (r : Request) (result : Instrumented) (t : FileTree) :
    ∃ uses outcome t', Runs (r.deliver FileTree.access result) (r.deliver FileTree.logged result) t uses
      outcome t' ∧ outcome.warnings = result.diagnostics ∧ r.Delivered result.code t uses outcome t' := by
  unfold deliver Delivered
  cases r.output with
  | none => exact ⟨_, _, _, Runs.pure _ _, rfl, rfl, rfl, rfl, rfl⟩
  | some path =>
    cases hwrite : t.write path result.code with
    | ok t' =>
      have hrun : (FileTree.access.write path result.code).run t = (.ok (), t') := by
        simp [FileTree.access, hwrite]
        rfl
      refine ⟨_, _, _, (Runs.write hrun).bind (Runs.pure _ _), rfl, rfl, rfl, ?_⟩
      rw [hwrite]
      exact ⟨rfl, FileTree.written_of_write hwrite⟩
    | error e =>
      have hrun : (FileTree.access.write path result.code).run t = (.error e, t) := by
        simp [FileTree.access, hwrite]
        rfl
      refine ⟨_, _, _, (Runs.write hrun).bind (Runs.pure _ _), rfl, rfl, rfl, ?_⟩
      rw [hwrite]
      exact ⟨rfl, rfl, rfl⟩

theorem runs_carryOut (r : Request) (input : String) (grammar : String → String → Concrete)
    (t : FileTree) :
    ∃ uses outcome t', Runs (r.carryOut input FileTree.access fun i x => Pure.pure (grammar i x))
        (r.carryOut input FileTree.logged fun i x => Pure.pure (grammar i x)) t
        ((r.readings input t).map .read ++ uses) outcome t' ∧
      match r.library input grammar t with
      | .error e => outcome = .failed [] e ∧ uses = [] ∧ t' = t
      | .ok result =>
        outcome.warnings = result.diagnostics ∧ r.Delivered result.code t uses outcome t' := by
  have hoptions := runs_options r t
  unfold carryOut readings
  simp only [List.map_append, List.append_assoc]
  cases hvalue : r.optionsOn t with
  | error e =>
    rw [hvalue] at hoptions
    have hlibrary : r.library input grammar t = .error (.settings e) := by
      rw [library, hvalue]
      rfl
    rw [hlibrary]
    exact ⟨[], _, t, hoptions.bind (Runs.pure _ _), rfl, rfl, rfl⟩
  | ok options =>
    rw [hvalue] at hoptions
    cases htext : t.read input with
    | error e =>
      have hlibrary : r.library input grammar t = .error (.unreadable input e) := by
        rw [library, hvalue, htext]
        rfl
      rw [hlibrary]
      refine ⟨[], _, t, hoptions.bind (Runs.read ?_), rfl, rfl, rfl⟩
      rw [htext]
      exact Runs.pure _ _
    | ok text =>
      have hgrammar := Runs.pure (grammar input text) t
      rw [library_of_options hvalue htext]
      cases hresult : instrument input text.toList (grammar input text) options with
      | error e =>
        refine ⟨[], _, t, hoptions.bind (Runs.read ?_), rfl, rfl, rfl⟩
        rw [htext]
        apply hgrammar.bind
        rw [hresult]
        exact Runs.pure _ _
      | ok result =>
        obtain ⟨uses, outcome, t', hdeliver, hdelivered⟩ := runs_deliver r result t
        refine ⟨uses, outcome, t', hoptions.bind (Runs.read ?_), hdelivered⟩
        rw [htext]
        apply hgrammar.bind
        rw [hresult]
        exact hdeliver

end Request

theorem Failure.exitCode_ne_zero (f : Failure) : f.exitCode ≠ 0 := by
  unfold Failure.exitCode
  split <;> decide

/-- A run over a tree of files is the library under the settings with the given options on top. Where
that fails, nothing is printed and nothing written. -/
theorem perform_library {args : List String} {input : String} {r : Request}
    (h : Arguments.read args = .run input r) (grammar : String → String → Concrete) (t : FileTree) :
    Arguments.Asks args input r ∧
      ∃ uses outcome t', Runs
          ((Arguments.read args).perform FileTree.access fun i x => Pure.pure (grammar i x))
          ((Arguments.read args).perform FileTree.logged fun i x => Pure.pure (grammar i x)) t
          ((r.readings input t).map .read ++ uses) outcome t' ∧
        match r.library input grammar t with
        | .error e =>
          outcome = .failed [] e ∧ outcome.exitCode = e.exitCode ∧ e.exitCode ≠ 0 ∧
            outcome.stdout = "" ∧ uses = [] ∧ t' = t
        | .ok result =>
          outcome.warnings = result.diagnostics ∧ r.Delivered result.code t uses outcome t' := by
  refine ⟨Arguments.asks_of_read h, ?_⟩
  obtain ⟨uses, outcome, t', hruns, hresult⟩ := r.runs_carryOut input grammar t
  rw [h]
  refine ⟨uses, outcome, t', hruns, ?_⟩
  cases hlibrary : r.library input grammar t with
  | error e =>
    rw [hlibrary] at hresult
    obtain ⟨rfl, huses, htree⟩ := hresult
    exact ⟨rfl, rfl, e.exitCode_ne_zero, rfl, huses, htree⟩
  | ok result =>
    rw [hlibrary] at hresult
    exact hresult

def emptyScript : FileTree := ⟨.ofList [("a.js", ""), ("rt", "R")]⟩

def emptyProgram : Concrete := .named "program" 0 0 none []

def emptyScriptCode : String :=
  "var __rt = (typeof __rt !== \"undefined\") ? __rt : (function (exports) \x7b\nR\n" ++
    ";return exports.runtime || exports; \x7d)(\x7b\x7d);\n"

theorem locate_emptyScript (strict : Bool) :
    emptyScript.locate strict "a.js" = .ok (.file "a.js") ∧
      emptyScript.locate strict "rt" = .ok (.file "rt") ∧
      emptyScript.locate strict "d/b" = .error .notFound := by
  cases strict <;> exact ⟨rfl, rfl, rfl⟩

theorem read_emptyScript :
    emptyScript.read "a.js" = .ok "" ∧ emptyScript.read "rt" = .ok "R" ∧
      emptyScript.read "d/b" = .error .notFound := by
  obtain ⟨hscript, hruntime, hbelow⟩ := locate_emptyScript true
  rw [FileTree.read, FileTree.read, FileTree.read, hscript, hruntime, hbelow]
  exact ⟨rfl, rfl, rfl⟩

theorem perform_library_inPlace :
    let args := ["a.js", "--linkage=embed", "--runtime", "rt", "-o", "a.js"]
    let r : Request :=
      { input := some "a.js", output := some "a.js", linkage := some .embed, runtime := some "rt" }
    Arguments.read args = .run "a.js" r ∧
      ∃ outcome t', ((Arguments.read args).perform FileTree.access fun _ _ => Pure.pure emptyProgram).run
          emptyScript = (outcome, t') ∧
        outcome.exitCode = 0 ∧ outcome.stdout = "" ∧
        t'.read "a.js" = .ok emptyScriptCode := by
  intro args r
  have hargs : Arguments.read args = .run "a.js" r := by decide +kernel
  obtain ⟨-, uses, outcome, t', hruns, hresult⟩ :=
    perform_library hargs (fun _ _ => emptyProgram) emptyScript
  refine ⟨hargs, outcome, t', hruns.plain, ?_⟩
  obtain ⟨hscript, hruntime, -⟩ := read_emptyScript
  have hoptions : r.optionsOn emptyScript = .ok ⟨"__rt", .embed, "jsane", some "R"⟩ := by
    have htext : r.runtimeText {} emptyScript = .ok (some "R") := by
      simp [Request.runtimeText, r, Request.laidOver, hruntime]
    have hbase : r.base emptyScript = .ok {} := rfl
    rw [Request.optionsOn, hbase, Except.bind, htext]
    rfl
  have hcode : (instrument "a.js" "".toList emptyProgram
      ⟨"__rt", .embed, "jsane", some "R"⟩).toOption.map Instrumented.code =
      some emptyScriptCode := by
    decide +kernel
  cases hinstrument : instrument "a.js" "".toList emptyProgram ⟨"__rt", .embed, "jsane", some "R"⟩ with
  | error e =>
    rw [hinstrument] at hcode
    cases hcode
  | ok result =>
    have hlibrary : r.library "a.js" (fun _ _ => emptyProgram) emptyScript = .ok result := by
      rw [Request.library_of_options hoptions hscript, hinstrument]
      rfl
    have hwrite : emptyScript.write "a.js" result.code = .ok (emptyScript.put "a.js" result.code) := by
      rw [FileTree.write, (locate_emptyScript false).1]
      rfl
    rw [hinstrument] at hcode
    rw [hlibrary] at hresult
    obtain ⟨-, hstdout, -, hdelivered⟩ := hresult
    simp only [hwrite] at hdelivered
    refine ⟨hdelivered.1, hstdout, ?_⟩
    rw [hdelivered.2.1]
    exact congrArg _ (Option.some.inj hcode)

theorem perform_unwritable :
    let args := ["a.js", "-o", "d/b"]
    let r : Request := { input := some "a.js", output := some "d/b" }
    let run := ((Arguments.read args).perform FileTree.access fun _ _ => Pure.pure emptyProgram).run
      emptyScript
    Arguments.read args = .run "a.js" r ∧
      (∃ result, r.library "a.js" (fun _ _ => emptyProgram) emptyScript = .ok result) ∧
      run.1.exitCode = 1 ∧ run.2 = emptyScript ∧ emptyScript.read "d/b" = .error .notFound := by
  intro args r run
  have hargs : Arguments.read args = .run "a.js" r := by decide +kernel
  obtain ⟨hscript, -, hbelow⟩ := read_emptyScript
  have hoptions : r.optionsOn emptyScript = .ok {} := rfl
  have hcode : (instrument "a.js" "".toList emptyProgram {}).toOption.isSome = true := by
    decide +kernel
  cases hinstrument : instrument "a.js" "".toList emptyProgram {} with
  | error e =>
    rw [hinstrument] at hcode
    cases hcode
  | ok result =>
    have hlibrary : r.library "a.js" (fun _ _ => emptyProgram) emptyScript = .ok result := by
      rw [Request.library_of_options hoptions hscript, hinstrument]
      rfl
    obtain ⟨uses, outcome, t', hruns, hresult⟩ :=
      r.runs_carryOut "a.js" (fun _ _ => emptyProgram) emptyScript
    have hwrite : emptyScript.write "d/b" result.code = .error .notFound := by
      rw [FileTree.write, (locate_emptyScript false).2.2]
    have hrun : run = (outcome, t') := by
      simp only [run, hargs]
      exact hruns.plain
    rw [hlibrary] at hresult
    obtain ⟨-, -, -, hdelivered⟩ := hresult
    simp only [hwrite] at hdelivered
    rw [hrun]
    exact ⟨hargs, ⟨result, hlibrary⟩, hdelivered.1, hdelivered.2.2, hbelow⟩

end CoercionTrace
