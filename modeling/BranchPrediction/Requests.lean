import Mathlib.Data.List.Basic
import Mathlib.Data.List.Induction
import Mathlib.Data.List.Range

/-!
# Requests that are answered in any order

A user selects keys one after the other.  Each selection asks for two files,
whose answers arrive whenever they do; once both files of a selection are there,
they are drawn, and if one of them fails, that is reported instead.  No selection
waits for another one and none is called off.

What drawing and reporting do to the view is a parameter, so that one view can be
compared with another (`simulation`) over the same interleaving of answers.
-/

namespace BranchPrediction.Requests

/-- A promise. -/
inductive Promise (α : Type*) where
  | pending
  | fulfilled (a : α)
  | rejected

/-- The two files of a request. -/
inductive File where
  | first
  | second
deriving DecidableEq

variable {κ α π ρ : Type*}

namespace Promise

/-- A promise settles once. -/
def settle : Promise α → Option α → Promise α
  | pending, some a => fulfilled a
  | pending, none => rejected
  | p, _ => p

def isSettled : Promise α → Bool
  | pending => false
  | _ => true

end Promise

/-- A request for the files of a key. -/
structure Load (κ α : Type*) where
  key : κ
  first : Promise α
  second : Promise α

namespace Load

/-- A request that is just made. -/
def ask (key : κ) : Load κ α := ⟨key, .pending, .pending⟩

/-- Both files, or the failure of one of them. -/
def all (load : Load κ α) : Promise (α × α) :=
  match load.first, load.second with
  | .fulfilled a, .fulfilled b => .fulfilled (a, b)
  | .rejected, _ => .rejected
  | _, .rejected => .rejected
  | _, _ => .pending

def isSettled (load : Load κ α) : Bool :=
  load.all.isSettled

def settle (file : File) (answer : Option α) (load : Load κ α) : Load κ α :=
  match file with
  | .first => { load with first := load.first.settle answer }
  | .second => { load with second := load.second.settle answer }

@[simp] theorem key_settle (file : File) (answer : Option α) (load : Load κ α) :
    (load.settle file answer).key = load.key := by
  cases file <;> rfl

/-- Once it is settled, a request does not change any more. -/
theorem all_settle {load : Load κ α} (h : load.isSettled) (file : File) (answer : Option α) :
    (load.settle file answer).all = load.all := by
  obtain ⟨key, first, second⟩ := load
  cases file <;> cases first <;> cases second <;> cases answer <;> first | rfl | cases h

/-- The answers a request has got are some that its key has. -/
structure Allowed (allowed : κ → File → α → Prop) (load : Load κ α) : Prop where
  first : ∀ a, load.first = .fulfilled a → allowed load.key .first a
  second : ∀ a, load.second = .fulfilled a → allowed load.key .second a

theorem Allowed.all {allowed : κ → File → α → Prop} {load : Load κ α} (h : load.Allowed allowed)
    {a b : α} (hall : load.all = .fulfilled (a, b)) :
    allowed load.key .first a ∧ allowed load.key .second b := by
  obtain ⟨key, first, second⟩ := load
  cases first <;> cases second <;> cases hall
  exact ⟨h.first a rfl, h.second b rfl⟩

theorem allowed_settle {allowed : κ → File → α → Prop} {load : Load κ α} (h : load.Allowed allowed)
    {file : File} {answer : Option α} (hanswer : ∀ a ∈ answer, allowed load.key file a) :
    (load.settle file answer).Allowed allowed := by
  have hsettle : ∀ {p : Promise α}, (∀ a, p = .fulfilled a → allowed load.key file a) →
      ∀ a, p.settle answer = .fulfilled a → allowed load.key file a := by
    intro p hp a ha
    cases p with
    | pending =>
        cases answer with
        | none => cases ha
        | some a' =>
            cases ha
            exact hanswer a rfl
    | fulfilled a' => exact hp a ha
    | rejected => cases ha
  cases file with
  | first => exact ⟨hsettle h.first, h.second⟩
  | second => exact ⟨h.first, hsettle h.second⟩

/-- Answered for both files, a request that had not failed is complete. -/
theorem all_settle_settle {load : Load κ α} (h : load.isSettled = false) (a b : α) :
    ∃ a' b', ((load.settle .first (some a)).settle .second (some b)).all =
      .fulfilled (a', b') := by
  obtain ⟨key, first, second⟩ := load
  cases first <;> cases second <;> first | exact ⟨_, _, rfl⟩ | cases h

end Load

/-! ## The machine -/

/-- What happens: a key is selected, or a promise of a request settles. -/
inductive Action (κ α : Type*) where
  | change (key : κ)
  | answer (load : ℕ) (file : File) (answer : Option α)

/-- The selected key, the requests in the order they were made, and the view. -/
structure Loader (κ α π : Type*) where
  selected : κ
  loads : List (Load κ α)
  view : π

/-- What is done with a view when a request is complete, and when it fails. -/
structure Handler (κ α π : Type*) where
  draw : κ → α → α → π → π
  fail : π → π

/-- What the settlement of a request does. -/
def Handler.finish (handler : Handler κ α π) (load : Load κ α) (view : π) : π :=
  match load.all with
  | .pending => view
  | .fulfilled (a, b) => handler.draw load.key a b view
  | .rejected => handler.fail view

namespace Loader

/-- A selector at its first key, whose files are asked for at once. -/
def initial (key : κ) (view : π) : Loader κ α π := ⟨key, [.ask key], view⟩

def step (handler : Handler κ α π) (s : Loader κ α π) : Action κ α → Loader κ α π
  | .change key => { s with selected := key, loads := s.loads ++ [.ask key] }
  | .answer i file answer =>
      match s.loads[i]? with
      | none => s
      | some load =>
          { s with
            loads := s.loads.set i (load.settle file answer)
            view :=
              if load.isSettled then s.view
              else handler.finish (load.settle file answer) s.view }

def run (handler : Handler κ α π) (acts : List (Action κ α)) (s : Loader κ α π) : Loader κ α π :=
  acts.foldl (step handler) s

/-- The answer of an action is one that the key of its request has. -/
def ServedBy (allowed : κ → File → α → Prop) (loads : List (Load κ α)) : Action κ α → Prop
  | .change _ => True
  | .answer i file answer =>
      ∀ load, loads[i]? = some load → ∀ a ∈ answer, allowed load.key file a

/-- A run in which all answers are. -/
def Served (handler : Handler κ α π) (allowed : κ → File → α → Prop) :
    Loader κ α π → List (Action κ α) → Prop
  | _, [] => True
  | s, act :: acts =>
      ServedBy allowed s.loads act ∧ Served handler allowed (s.step handler act) acts

section

variable {handler : Handler κ α π} {allowed : κ → File → α → Prop} {s : Loader κ α π}

/-- An answer that some request gets. -/
theorem step_answer {i : ℕ} {load : Load κ α} (hload : s.loads[i]? = some load) (file : File)
    (answer : Option α) : s.step handler (.answer i file answer) =
      { s with
        loads := s.loads.set i (load.settle file answer)
        view := if load.isSettled then s.view
          else handler.finish (load.settle file answer) s.view } := by
  rw [step, hload]

theorem step_answer_of_none {i : ℕ} (hload : s.loads[i]? = none) (file : File)
    (answer : Option α) : s.step handler (.answer i file answer) = s := by
  rw [step, hload]

theorem allowed_step (h : ∀ load ∈ s.loads, load.Allowed allowed) {act : Action κ α}
    (hact : ServedBy allowed s.loads act) :
    ∀ load ∈ (s.step handler act).loads, load.Allowed allowed := by
  cases act with
  | change key =>
      intro load hload
      rcases List.mem_append.mp hload with hload | hload
      · exact h load hload
      · rw [List.mem_singleton.mp hload]
        exact ⟨nofun, nofun⟩
  | answer i file answer =>
      cases hi : s.loads[i]? with
      | none =>
          rw [step_answer_of_none hi]
          exact h
      | some old =>
          rw [step_answer hi]
          intro load hload
          rcases List.mem_or_eq_of_mem_set hload with hload | rfl
          · exact h load hload
          · exact Load.allowed_settle (h old (List.mem_of_getElem? hi)) (hact old hi)

end

/-! ### The requests do not depend on the view -/

section

variable {handler : Handler κ α π} {handler' : Handler κ α ρ} {s : Loader κ α π} {s' : Loader κ α ρ}

theorem loads_step_congr (h : s.loads = s'.loads) (act : Action κ α) :
    (s.step handler act).loads = (s'.step handler' act).loads := by
  cases act with
  | change key => exact congrArg (· ++ [Load.ask key]) h
  | answer i file answer =>
      cases hi : s.loads[i]? with
      | none => rw [step_answer_of_none hi, step_answer_of_none (h ▸ hi), h]
      | some load => rw [step_answer hi, step_answer (h ▸ hi), h]

theorem served_congr {allowed : κ → File → α → Prop} (h : s.loads = s'.loads)
    {acts : List (Action κ α)} (hacts : Served handler allowed s acts) :
    Served handler' allowed s' acts := by
  induction acts generalizing s s' with
  | nil => trivial
  | cons act acts ih => exact ⟨h ▸ hacts.1, ih (loads_step_congr h act) hacts.2⟩

theorem served_append {allowed : κ → File → α → Prop} {acts acts' : List (Action κ α)}
    (h : Served handler allowed s acts) (h' : Served handler allowed (run handler acts s) acts') :
    Served handler allowed s (acts ++ acts') := by
  induction acts generalizing s with
  | nil => exact h'
  | cons act acts ih => exact ⟨h.1, ih h.2 h'⟩

end

/-! ## Two views of one run -/

section

variable {handler : Handler κ α π} {handler' : Handler κ α ρ} {allowed : κ → File → α → Prop}
  {R : π → ρ → Prop}
  (hdraw : ∀ key a b v v', allowed key .first a → allowed key .second b → R v v' →
    R (handler.draw key a b v) (handler'.draw key a b v'))
  (hfail : ∀ v v', R v v' → R (handler.fail v) (handler'.fail v'))
include hdraw hfail

theorem finish_simulation {load : Load κ α} (hload : load.Allowed allowed) {v : π} {v' : ρ}
    (h : R v v') : R (handler.finish load v) (handler'.finish load v') := by
  unfold Handler.finish
  cases hall : load.all with
  | pending => exact h
  | fulfilled ab => exact hdraw _ _ _ _ _ (hload.all hall).1 (hload.all hall).2 h
  | rejected => exact hfail _ _ h

theorem step_simulation {s : Loader κ α π} {s' : Loader κ α ρ}
    (hselected : s.selected = s'.selected) (hloads : s.loads = s'.loads)
    (hview : R s.view s'.view)
    (hallowed : ∀ load ∈ s.loads, load.Allowed allowed) {act : Action κ α}
    (hact : ServedBy allowed s.loads act) :
    (s.step handler act).selected = (s'.step handler' act).selected ∧
      (s.step handler act).loads = (s'.step handler' act).loads ∧
      R (s.step handler act).view (s'.step handler' act).view := by
  cases act with
  | change key => exact ⟨rfl, congrArg (· ++ [Load.ask key]) hloads, hview⟩
  | answer i file answer =>
      cases hi : s.loads[i]? with
      | none =>
          rw [step_answer_of_none hi, step_answer_of_none (hloads ▸ hi)]
          exact ⟨hselected, hloads, hview⟩
      | some load =>
          rw [step_answer hi, step_answer (hloads ▸ hi), hloads]
          refine ⟨hselected, rfl, ?_⟩
          have hsettle : (load.settle file answer).Allowed allowed :=
            Load.allowed_settle (hallowed load (List.mem_of_getElem? hi)) (hact load hi)
          split
          · exact hview
          · exact finish_simulation hdraw hfail hsettle hview

/-- **Views that drawing and reporting keep related are related after every run.** -/
theorem simulation
    (acts : List (Action κ α)) {s : Loader κ α π} {s' : Loader κ α ρ}
    (hselected : s.selected = s'.selected) (hloads : s.loads = s'.loads)
    (hview : R s.view s'.view) (hallowed : ∀ load ∈ s.loads, load.Allowed allowed)
    (hserved : Served handler allowed s acts) :
    (run handler acts s).selected = (run handler' acts s').selected ∧
      (run handler acts s).loads = (run handler' acts s').loads ∧
      R (run handler acts s).view (run handler' acts s').view := by
  induction acts generalizing s s' with
  | nil => exact ⟨hselected, hloads, hview⟩
  | cons act acts ih =>
      obtain ⟨hselected', hloads', hview'⟩ :=
        step_simulation hdraw hfail hselected hloads hview hallowed hserved.1
      exact ih hselected' hloads' hview' (allowed_step hallowed hserved.1) hserved.2

end

/-! ## How many requests are settled -/

/-- A view that counts what is drawn and what is reported. -/
def counter : Handler κ α ℕ where
  draw _ _ _ n := n + 1
  fail n := n + 1

theorem finish_counter (load : Load κ α) (n : ℕ) :
    counter.finish load n = n + if load.isSettled then 1 else 0 := by
  unfold Handler.finish Load.isSettled
  cases load.all <;> rfl

theorem step_counter {s : Loader κ α ℕ} (h : s.view = s.loads.countP Load.isSettled)
    (act : Action κ α) :
    (s.step counter act).view = (s.step counter act).loads.countP Load.isSettled := by
  cases act with
  | change key =>
      have hask : (Load.ask key : Load κ α).isSettled = false := rfl
      simp [step, h, hask]
  | answer i file answer =>
      cases hi : s.loads[i]? with
      | none =>
          rw [step_answer_of_none hi]
          exact h
      | some load =>
          obtain ⟨hlt, rfl⟩ := List.getElem?_eq_some_iff.mp hi
          have hpos : s.loads[i].isSettled → 0 < s.loads.countP Load.isSettled := fun hsettled =>
            List.countP_pos_iff.mpr ⟨_, List.getElem_mem hlt, hsettled⟩
          rw [step_answer hi]
          simp only [List.countP_set hlt, h, finish_counter]
          by_cases hsettled : s.loads[i].isSettled
          · have hsettled' : (s.loads[i].settle file answer).isSettled := by
              rw [Load.isSettled, Load.all_settle hsettled]
              exact hsettled
            have := hpos hsettled
            rw [if_pos hsettled, if_pos hsettled, if_pos hsettled']
            omega
          · rw [if_neg hsettled, if_neg hsettled]
            omega

/-- **Every request is drawn or reported exactly once.** -/
theorem run_counter (acts : List (Action κ α)) {s : Loader κ α ℕ}
    (h : s.view = s.loads.countP Load.isSettled) :
    (run counter acts s).view = (run counter acts s).loads.countP Load.isSettled := by
  induction acts generalizing s with
  | nil => exact h
  | cons act acts ih => exact ih (step_counter h act)

/-! ## What is drawn last -/

/-- A view of the request drawn last. -/
def latest : Handler κ α (Option (κ × α × α)) where
  draw key a b _ := some (key, a, b)
  fail shown := shown

/-- A key is only selected when no request is under way. -/
def Patient (handler : Handler κ α π) : Loader κ α π → List (Action κ α) → Prop
  | _, [] => True
  | s, act :: acts =>
      ((∃ key, act = .change key) → ∀ load ∈ s.loads, load.isSettled) ∧
        Patient handler (s.step handler act) acts

theorem patient_congr {handler : Handler κ α π} {handler' : Handler κ α ρ} {s : Loader κ α π}
    {s' : Loader κ α ρ} (h : s.loads = s'.loads) {acts : List (Action κ α)}
    (hacts : Patient handler s acts) : Patient handler' s' acts := by
  induction acts generalizing s s' with
  | nil => trivial
  | cons act acts ih => exact ⟨h ▸ hacts.1, ih (loads_step_congr h act) hacts.2⟩

/-- Only the last request may be under way, and it is shown once it is complete. -/
structure UpToDate (s : Loader κ α (Option (κ × α × α))) (older : List (Load κ α))
    (last : Load κ α) : Prop where
  loads : s.loads = older ++ [last]
  selected : s.selected = last.key
  settled : ∀ load ∈ older, load.isSettled
  shown : ∀ a b, last.all = .fulfilled (a, b) → s.view = some (last.key, a, b)

theorem step_upToDate {s : Loader κ α (Option (κ × α × α))} {older : List (Load κ α)}
    {last : Load κ α} (h : UpToDate s older last) {act : Action κ α}
    (hact : (∃ key, act = .change key) → ∀ load ∈ s.loads, load.isSettled) :
    ∃ older' last', UpToDate (s.step latest act) older' last' := by
  cases act with
  | change key =>
      exact ⟨s.loads, .ask key, rfl, rfl, hact ⟨key, rfl⟩, nofun⟩
  | answer i file answer =>
      cases hi : s.loads[i]? with
      | none =>
          rw [step_answer_of_none hi]
          exact ⟨older, last, h⟩
      | some load =>
          rw [step_answer hi, h.loads]
          rw [h.loads] at hi
          rcases Nat.lt_or_ge i older.length with hlt | hge
          · -- an answer that comes too late for its request
            rw [List.getElem?_append_left hlt] at hi
            have hsettled := h.settled load (List.mem_of_getElem? hi)
            refine ⟨older.set i (load.settle file answer), last, ?_, h.selected, ?_, ?_⟩
            · exact List.set_append_left _ _ hlt
            · intro load' hload'
              rcases List.mem_or_eq_of_mem_set hload' with hload' | rfl
              · exact h.settled load' hload'
              · rw [Load.isSettled, Load.all_settle hsettled]
                exact hsettled
            · intro a b hall
              simp only [if_pos hsettled]
              exact h.shown a b hall
          · obtain rfl : i = older.length := by
              have := (List.getElem?_eq_some_iff.mp hi).1
              rw [List.length_append, List.length_singleton] at this
              omega
            obtain rfl : load = last := by simpa using hi.symm
            refine ⟨older, load.settle file answer, ?_, ?_, h.settled, ?_⟩
            · simp
            · exact h.selected.trans (Load.key_settle file answer load).symm
            · intro a b hall
              simp only [Load.key_settle]
              split
              · next hsettled =>
                  rw [Load.all_settle hsettled] at hall
                  exact h.shown a b hall
              · rw [Handler.finish, hall, Load.key_settle]
                rfl

/-- **With one request at a time the selected key is shown** as soon as its files
are there. -/
theorem run_upToDate (acts : List (Action κ α)) {s : Loader κ α (Option (κ × α × α))}
    {older : List (Load κ α)} {last : Load κ α} (h : UpToDate s older last)
    (hacts : Patient latest s acts) :
    ∃ older' last', UpToDate (run latest acts s) older' last' := by
  induction acts generalizing s older last with
  | nil => exact ⟨older, last, h⟩
  | cons act acts ih =>
      obtain ⟨older', last', h'⟩ := step_upToDate h hacts.1
      exact ih h' hacts.2

/-! ## Overtaking -/

/-- Both files of a request arrive. -/
def arrive (files : ℕ → File → α) (i : ℕ) : List (Action κ α) :=
  [.answer i .first (some (files i .first)), .answer i .second (some (files i .second))]

/-- The files of requests arrive, one request after the other. -/
def arriveAll (files : ℕ → File → α) (order : List ℕ) : List (Action κ α) :=
  order.flatMap (arrive files)

section

variable (handler : Handler κ α π) (files : ℕ → File → α)

theorem run_append (acts acts' : List (Action κ α)) (s : Loader κ α π) :
    run handler (acts ++ acts') s = run handler acts' (run handler acts s) :=
  List.foldl_append

theorem selected_step_answer (s : Loader κ α π) (i : ℕ) (file : File) (answer : Option α) :
    (s.step handler (.answer i file answer)).selected = s.selected := by
  cases hi : s.loads[i]? with
  | none => rw [step_answer_of_none hi]
  | some load => rw [step_answer hi]

theorem getElem?_step_answer (s : Loader κ α π) (i : ℕ) (file : File) (answer : Option α) (j : ℕ) :
    (s.step handler (.answer i file answer)).loads[j]? =
      if i = j then s.loads[j]?.map (Load.settle file answer) else s.loads[j]? := by
  cases hi : s.loads[i]? with
  | none =>
      rw [step_answer_of_none hi]
      split
      · next h => rw [← h, hi, Option.map_none]
      · rfl
  | some load =>
      rw [step_answer hi, List.getElem?_set]
      split
      · next h => rw [← h, if_pos (List.getElem?_eq_some_iff.mp hi).1, hi, Option.map_some]
      · rfl

theorem getElem?_run_arrive (s : Loader κ α π) (i j : ℕ) :
    (run handler (arrive files i) s).loads[j]? =
      if i = j then s.loads[j]?.map fun load =>
        (load.settle .first (some (files i .first))).settle .second (some (files i .second))
      else s.loads[j]? := by
  rw [arrive, run, List.foldl_cons, List.foldl_cons, List.foldl_nil, getElem?_step_answer,
    getElem?_step_answer]
  split
  · rw [Option.map_map]
    rfl
  · rfl

/-- What has arrived is settled, and the other requests are as before. -/
theorem run_arriveAll (order : List ℕ) (s : Loader κ α π) :
    (run handler (arriveAll files order) s).selected = s.selected ∧
      (∀ j ∈ order, ∀ load, (run handler (arriveAll files order) s).loads[j]? = some load →
        load.isSettled) ∧
      ∀ j ∉ order, (run handler (arriveAll files order) s).loads[j]? = s.loads[j]? := by
  induction order using List.reverseRecOn with
  | nil => exact ⟨rfl, nofun, fun _ _ => rfl⟩
  | append_singleton order i ih =>
      obtain ⟨hselected, hsettled, hrest⟩ := ih
      have hsplit : arriveAll files (order ++ [i]) =
          (arriveAll files order ++ arrive files i : List (Action κ α)) := by
        simp [arriveAll]
      rw [hsplit, run_append]
      refine ⟨?_, ?_, ?_⟩
      · exact (selected_step_answer handler _ _ _ _).trans
          ((selected_step_answer handler _ _ _ _).trans hselected)
      · intro j hj load hload
        rw [getElem?_run_arrive] at hload
        split at hload
        · obtain ⟨old, -, rfl⟩ := Option.map_eq_some_iff.mp hload
          cases hold : old.isSettled with
          | true =>
              have hfirst := Load.all_settle hold .first (some (files i .first))
              have hfirst' : (old.settle .first (some (files i .first))).isSettled := by
                rw [Load.isSettled, hfirst]
                exact hold
              rw [Load.isSettled, Load.all_settle hfirst', hfirst]
              exact hold
          | false =>
              obtain ⟨a, b, hall⟩ := Load.all_settle_settle hold (files i .first) (files i .second)
              rw [Load.isSettled, hall]
              rfl
        · next hij =>
            rcases List.mem_append.mp hj with hj | hj
            · exact hsettled j hj load hload
            · exact absurd (List.mem_singleton.mp hj).symm hij
      · intro j hj
        rw [List.mem_append, not_or, List.mem_singleton] at hj
        rw [getElem?_run_arrive, if_neg (Ne.symm hj.2)]
        exact hrest j hj.1

/-- The files that arrive are some of the right keys. -/
theorem served_arriveAll {allowed : κ → File → α → Prop} (order : List ℕ) {s : Loader κ α π}
    (hfiles : ∀ j load, s.loads[j]? = some load → ∀ file, allowed load.key file (files j file)) :
    Served handler allowed s (arriveAll files order) := by
  have hstep : ∀ {s : Loader κ α π} (i : ℕ) (file : File),
      (∀ j load, s.loads[j]? = some load → ∀ file, allowed load.key file (files j file)) →
      ServedBy allowed s.loads (.answer i file (some (files i file))) ∧
        ∀ j load, (s.step handler (.answer i file (some (files i file)))).loads[j]? = some load →
          ∀ file, allowed load.key file (files j file) := by
    intro s i file hfiles
    constructor
    · rintro load hload a ⟨⟩
      exact hfiles i load hload file
    · intro j load hload
      rw [getElem?_step_answer] at hload
      split at hload
      · obtain ⟨old, hold, rfl⟩ := Option.map_eq_some_iff.mp hload
        rw [Load.key_settle]
        exact hfiles j old hold
      · exact hfiles j load hload
  induction order generalizing s with
  | nil => trivial
  | cons i order ih =>
      obtain ⟨hfirst, hfiles'⟩ := hstep i .first hfiles
      obtain ⟨hsecond, hfiles''⟩ := hstep i .second hfiles'
      exact ⟨hfirst, hsecond, ih hfiles''⟩

end

/-- A request that has not failed is shown when its files arrive. -/
theorem view_run_arrive (files : ℕ → File → α) {s : Loader κ α (Option (κ × α × α))} {i : ℕ}
    {load : Load κ α} (hload : s.loads[i]? = some load) (hsettled : load.isSettled = false) :
    ∃ a b, (run latest (arrive files i) s).view = some (load.key, a, b) := by
  obtain ⟨a, b, hall⟩ := Load.all_settle_settle hsettled (files i .first) (files i .second)
  refine ⟨a, b, ?_⟩
  have hload' : (s.step latest (.answer i .first (some (files i .first)))).loads[i]? =
      some (load.settle .first (some (files i .first))) := by
    rw [getElem?_step_answer, if_pos rfl, hload, Option.map_some]
  rw [arrive, run, List.foldl_cons, List.foldl_cons, List.foldl_nil, step_answer hload',
    step_answer hload]
  simp only [hsettled, Bool.false_eq_true, if_false]
  split
  · next hfirst =>
      -- the other file was there already
      rw [Load.all_settle hfirst] at hall
      rw [Handler.finish, hall, Load.key_settle]
      rfl
  · rw [Handler.finish, hall, Load.key_settle, Load.key_settle]
    rfl

/-- **Any request under way may be the one that is shown in the end.** -/
theorem exists_overtaking {allowed : κ → File → α → Prop} (files : ℕ → File → α)
    {s : Loader κ α (Option (κ × α × α))}
    (hfiles : ∀ j load, s.loads[j]? = some load → ∀ file, allowed load.key file (files j file))
    {i : ℕ} {load : Load κ α} (hload : s.loads[i]? = some load)
    (hsettled : load.isSettled = false) :
    ∃ acts, (∀ key, .change key ∉ acts) ∧ Served latest allowed s acts ∧
      (run latest acts s).selected = s.selected ∧
      (∀ load ∈ (run latest acts s).loads, load.isSettled) ∧
      ∃ a b, (run latest acts s).view = some (load.key, a, b) := by
  let others := (List.range s.loads.length).erase i
  have hi : i ∉ others := fun h => (List.Nodup.mem_erase_iff List.nodup_range).mp h |>.1 rfl
  obtain ⟨-, -, hrest⟩ := run_arriveAll latest files others s
  obtain ⟨hselected, hall, hkept⟩ := run_arriveAll latest files (others ++ [i]) s
  refine ⟨arriveAll files (others ++ [i]), ?_, served_arriveAll latest files _ hfiles, hselected,
    ?_, ?_⟩
  · intro key hmem
    simp [arriveAll, arrive] at hmem
  · intro load' hload'
    obtain ⟨j, hj⟩ := List.getElem?_of_mem hload'
    by_cases hmem : j ∈ others ++ [i]
    · exact hall j hmem load' hj
    · -- there is no other request
      have hj' := hkept j hmem ▸ hj
      have hlt := (List.getElem?_eq_some_iff.mp hj').1
      rw [List.mem_append, not_or, List.mem_singleton] at hmem
      exact absurd ((List.mem_erase_of_ne hmem.2).mpr (List.mem_range.mpr hlt)) hmem.1
  · have hsplit : arriveAll files (others ++ [i]) =
        (arriveAll files others ++ arrive files i : List (Action κ α)) := by
      simp [arriveAll]
    rw [hsplit, run_append]
    exact view_run_arrive files ((hrest i hi).trans hload) hsettled

end Loader

end BranchPrediction.Requests
