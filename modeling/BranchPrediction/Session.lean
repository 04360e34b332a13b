import BranchPrediction.MyBranch.Model
import BranchPrediction.MyTage.Model

/-!
# A session under Pin

`main` hands `Image` and `Instruction` to Pin, which calls the one for every image
that is loaded and the other for every instruction before it first runs.  Where
`Instruction` has put a call before an instruction, `RecordBranch` hears of each
of its executions.

All of this goes on for the loader and the libraries as well, in whatever order
they are loaded and run.  What the tools count of it are the branches of the main
executable, each once.
-/

namespace BranchPrediction

/-- What happens in the instrumented process. -/
inductive Callback where
  /-- An image is loaded. -/
  | image (isMainExecutable : Bool) (lowAddress highAddress : ADDRINT)
  /-- An instruction is compiled. -/
  | instruction (ip : ADDRINT) (isBranch : Bool)
  /-- An instruction runs; the event is what a call before it is passed. -/
  | execute (e : Event)

/-- `Instruction`: the addresses with a call of `RecordBranch` before them. -/
def instruction (ip : ADDRINT) (isBranch : Bool) (instrumented : List ADDRINT) : List ADDRINT :=
  if isBranch then ip :: instrumented else instrumented

/-- A tool in its process: `low` and `high`, the calls it has inserted and its
other globals. -/
structure Session (σ : Type*) where
  range : Range := ⟨0, 0⟩
  instrumented : List ADDRINT := []
  globals : σ

namespace Session

section

variable {σ : Type*} (recordBranch : Range → σ → Event → σ)

/-- The tool's part in what happens. -/
def react (s : Session σ) : Callback → Session σ
  | .image isMainExecutable lowAddress highAddress =>
      { s with range := image isMainExecutable lowAddress highAddress s.range }
  | .instruction ip isBranch =>
      { s with instrumented := instruction ip isBranch s.instrumented }
  | .execute e =>
      if e.ip ∈ s.instrumented then { s with globals := recordBranch s.range s.globals e } else s

/-- A whole process. -/
def run (callbacks : List Callback) (s : Session σ) : Session σ :=
  callbacks.foldl (react recordBranch) s

theorem run_append (callbacks callbacks' : List Callback) (s : Session σ) :
    run recordBranch (callbacks ++ callbacks') s =
      run recordBranch callbacks' (run recordBranch callbacks s) :=
  List.foldl_append

theorem run_concat (callbacks : List Callback) (callback : Callback) (s : Session σ) :
    run recordBranch (callbacks ++ [callback]) s =
      react recordBranch (run recordBranch callbacks s) callback :=
  List.foldl_concat ..

/-- The branches among the instructions that run. -/
def executed (isBranch : ADDRINT → Bool) (callbacks : List Callback) : List Event :=
  callbacks.filterMap fun
    | .execute e => if isBranch e.ip then some e else none
    | _ => none

theorem executed_append (isBranch : ADDRINT → Bool) (callbacks callbacks' : List Callback) :
    executed isBranch (callbacks ++ callbacks') =
      executed isBranch callbacks ++ executed isBranch callbacks' :=
  List.filterMap_append

/-- How Pin treats a process whose code does not change: every instruction is
compiled, once or more often, before it runs. -/
structure Compiled (isBranch : ADDRINT → Bool) (callbacks : List Callback) : Prop where
  kind : ∀ ip b, Callback.instruction ip b ∈ callbacks → b = isBranch ip
  before : ∀ past e, past ++ [Callback.execute e] <+: callbacks →
    Callback.instruction e.ip (isBranch e.ip) ∈ past

theorem Compiled.sofar {isBranch : ADDRINT → Bool} {callbacks callbacks' : List Callback}
    (h : Compiled isBranch callbacks') (hsofar : callbacks <+: callbacks') :
    Compiled isBranch callbacks where
  kind ip b hmem := h.kind ip b (hsofar.subset hmem)
  before past e hpast := h.before past e (hpast.trans hsofar)

theorem mem_instrumented_react {s : Session σ} {callback : Callback} {ip : ADDRINT} :
    ip ∈ (react recordBranch s callback).instrumented ↔
      ip ∈ s.instrumented ∨ callback = .instruction ip true := by
  cases callback with
  | image => simp [react]
  | instruction ip' isBranch =>
      cases isBranch with
      | false => simp [react, instruction]
      | true => simp [react, instruction, or_comm, eq_comm]
  | execute e =>
      rw [react]
      split <;> simp

theorem mem_instrumented_run {callbacks : List Callback} {s : Session σ} {ip : ADDRINT} :
    ip ∈ (run recordBranch callbacks s).instrumented ↔
      ip ∈ s.instrumented ∨ Callback.instruction ip true ∈ callbacks := by
  induction callbacks using List.reverseRecOn with
  | nil => simp [run]
  | append_singleton callbacks callback ih =>
      rw [run_concat, mem_instrumented_react, ih, List.mem_append, List.mem_singleton, or_assoc,
        eq_comm (a := callback)]

/-- Exactly the branches are reported. -/
theorem Compiled.mem_instrumented {isBranch : ADDRINT → Bool} {callbacks : List Callback}
    {e : Event} (h : Compiled isBranch (callbacks ++ [.execute e])) (globals : σ) :
    e.ip ∈ (run recordBranch callbacks { globals }).instrumented ↔ isBranch e.ip = true := by
  have hcompiled := h.before callbacks e (List.prefix_refl _)
  rw [mem_instrumented_run]
  constructor
  · rintro (hmem | hmem)
    · cases hmem
    · exact (h.kind e.ip true (List.mem_append_left _ hmem)).symm
  · intro hbranch
    rw [hbranch] at hcompiled
    exact Or.inr hcompiled

/-- No image of this stretch is the main executable. -/
def NoMain (callbacks : List Callback) : Prop :=
  ∀ low high, Callback.image true low high ∉ callbacks

theorem range_run {callbacks : List Callback} (h : NoMain callbacks) (s : Session σ) :
    (run recordBranch callbacks s).range = s.range := by
  induction callbacks using List.reverseRecOn with
  | nil => rfl
  | append_singleton callbacks callback ih =>
      rw [run_concat, ← ih fun low high hmem => h low high (List.mem_append_left _ hmem)]
      cases callback with
      | image isMain low high =>
          cases isMain with
          | false => rfl
          | true => exact absurd (List.mem_append_right _ (List.mem_singleton_self _)) (h low high)
      | instruction => rfl
      | execute e =>
          rw [react]
          split <;> rfl

/-- A stretch without the main executable's image is a run of its branches. -/
theorem globals_run {isBranch : ADDRINT → Bool} {callbacks stretch : List Callback} {globals : σ}
    (h : Compiled isBranch (callbacks ++ stretch)) (hmain : NoMain stretch) :
    (run recordBranch (callbacks ++ stretch) { globals }).globals =
      (executed isBranch stretch).foldl
        (recordBranch (run recordBranch callbacks { globals }).range)
        (run recordBranch callbacks { globals }).globals := by
  induction stretch using List.reverseRecOn with
  | nil =>
      rw [List.append_nil]
      rfl
  | append_singleton stretch callback ih =>
      rw [← List.append_assoc] at h ⊢
      have hmain' : NoMain stretch := fun low high hmem =>
        hmain low high (List.mem_append_left _ hmem)
      have ih' := ih (h.sofar (List.prefix_append _ _)) hmain'
      rw [run_concat, executed_append, List.foldl_append, ← ih']
      cases callback with
      | image => rfl
      | instruction => rfl
      | execute e =>
          have hrange := range_run recordBranch hmain' (run recordBranch callbacks { globals })
          rw [← run_append] at hrange
          have hcalled := h.mem_instrumented recordBranch globals
          by_cases hbranch : isBranch e.ip = true
          · simp [react, executed, hcalled, hbranch, hrange]
          · simp [react, executed, hcalled, hbranch]

/-- What is outside the range does not count. -/
theorem foldl_inRange {range : Range}
    (hskip : ∀ s e, ¬ range.Contains e.ip → recordBranch range s e = s) (es : List Event) (s : σ) :
    es.foldl (recordBranch range) s = (range.inRange es).foldl (recordBranch range) s := by
  rw [Range.inRange, List.foldl_filter]
  congr 1
  funext s e
  by_cases h : range.Contains e.ip
  · simp [h]
  · simp [h, hskip s e h]

/-- Until the main executable is loaded, only the address zero is in range. -/
theorem inRange_eq_nil {es : List Event} (h : ∀ e ∈ es, e.ip ≠ 0) :
    Range.inRange ⟨0, 0⟩ es = [] := by
  rw [Range.inRange, List.filter_eq_nil_iff]
  intro e he
  rw [decide_eq_true_eq]
  rintro ⟨-, hle⟩
  exact h e he (UInt64.le_zero_iff.mp hle)

end

/-- The process of a program: its code does not change, its main executable is loaded
once, and nothing is executed at the address zero before. -/
structure Process (isBranch : ADDRINT → Bool) (before : List Callback) (main : Range)
    (after : List Callback) : Prop where
  compiled : Compiled isBranch (before ++ .image true main.low main.high :: after)
  noneBefore : NoMain before
  noneAfter : NoMain after
  zero : ∀ e ∈ executed isBranch before, e.ip ≠ 0

/-- A tool's part in the process, from its initial globals. -/
def ended {σ : Type*} (recordBranch : Range → σ → Event → σ) (globals : σ)
    (before : List Callback) (main : Range) (after : List Callback) : σ :=
  (run recordBranch (before ++ .image true main.low main.high :: after) { globals }).globals

/-- What is left of a process is a run over the branches of the main executable. -/
theorem Process.ended_eq {σ : Type*} {recordBranch : Range → σ → Event → σ}
    (hskip : ∀ range s e, ¬ Range.Contains range e.ip → recordBranch range s e = s)
    {isBranch : ADDRINT → Bool} {before after : List Callback} {main : Range}
    (h : Process isBranch before main after) (globals : σ) :
    ended recordBranch globals before main after =
      (main.inRange (executed isBranch after)).foldl (recordBranch main) globals := by
  have hcompiled := h.compiled
  have hloaded : before ++ .image true main.low main.high :: after =
      (before ++ [.image true main.low main.high]) ++ after := List.append_cons ..
  have hstart : (run recordBranch before { globals }).globals = globals := by
    have hcompiled' : Compiled isBranch ([] ++ before) :=
      hcompiled.sofar (List.prefix_append _ _)
    have hrun : (run recordBranch before { globals }).globals =
        (executed isBranch before).foldl (recordBranch ⟨0, 0⟩) globals :=
      globals_run recordBranch hcompiled' h.noneBefore
    rw [hrun, foldl_inRange recordBranch (hskip _), inRange_eq_nil h.zero]
    rfl
  rw [hloaded] at hcompiled
  rw [ended, hloaded, globals_run recordBranch hcompiled h.noneAfter, run_concat, react, image,
    if_pos rfl, hstart]
  exact foldl_inRange recordBranch (hskip _) _ _

theorem Process.ended_myBranch {isBranch : ADDRINT → Bool} {before after : List Callback}
    {main : Range} (h : Process isBranch before main after) :
    ended MyBranch.step {} before main after =
      MyBranch.run main (main.inRange (executed isBranch after)) {} :=
  h.ended_eq (fun _ s _ hip => MyBranch.step_of_not_contains hip s) {}

theorem Process.ended_myTage {isBranch : ADDRINT → Bool} {before after : List Callback}
    {main : Range} (h : Process isBranch before main after) :
    ended MyTage.step {} before main after =
      MyTage.run main (main.inRange (executed isBranch after)) {} :=
  h.ended_eq (fun _ s _ hip => MyTage.step_of_not_contains hip s) {}

end Session

open Session

/-- **Only the main executable counts.**  Whatever else is loaded, compiled and run in
the process, and whenever it is, either tool ends with the globals of a run over the
branches of the main executable: each execution of one counts, and counts once. -/
theorem session_counts (isBranch : ADDRINT → Bool) {before after : List Callback} {main : Range}
    (h : Process isBranch before main after) :
    let branches := main.inRange (executed isBranch after)
    ended MyBranch.step {} before main after = MyBranch.run main branches {} ∧
      ended MyTage.step {} before main after = MyTage.run main branches {} :=
  ⟨h.ended_myBranch, h.ended_myTage⟩

/-- A library that branches before and after the main executable is loaded. -/
def libraryBefore : List Callback :=
  [.image false 90 99, .instruction 95 true, .execute ⟨95, 4, true⟩]

def libraryAfter : List Callback :=
  [.instruction 4 true, .execute ⟨4, 95, true⟩, .execute ⟨95, 4, false⟩]

theorem process_library : Process (fun _ => true) libraryBefore ⟨1, 9⟩ libraryAfter where
  compiled := by
    constructor
    · simp [libraryBefore, libraryAfter]
    · rintro past e ⟨rest, h⟩
      rcases past with _ | ⟨_, _ | ⟨_, _ | ⟨_, _ | ⟨_, _ | ⟨_, _ | ⟨_, _ | ⟨_, past⟩⟩⟩⟩⟩⟩⟩ <;>
        simp_all [libraryBefore, libraryAfter]
  noneBefore := by simp [NoMain, libraryBefore]
  noneAfter := by simp [NoMain, libraryAfter]
  zero := by simp [executed, libraryBefore]

theorem session_counts_library :
    ended MyBranch.step {} libraryBefore ⟨1, 9⟩ libraryAfter =
        MyBranch.run ⟨1, 9⟩ [⟨4, 95, true⟩] {} ∧
      ended MyTage.step {} libraryBefore ⟨1, 9⟩ libraryAfter =
        MyTage.run ⟨1, 9⟩ [⟨4, 95, true⟩] {} :=
  session_counts (fun _ => true) process_library

end BranchPrediction
