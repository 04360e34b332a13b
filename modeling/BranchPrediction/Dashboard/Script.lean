import BranchPrediction.Accuracy
import BranchPrediction.Json.Doubles
import Mathlib.Algebra.Order.Round
import Mathlib.Logic.Function.Basic

/-!
# `script.js`

The page as the script sees it, and `render`, which writes the documents of one
test case into it.  Two canvases that the script draws on are commented out of
`index.html`; `Page.element` is where that shows.

The appearance of the charts (colours of axes, sizes, markup of the rows) is
left out.
-/

namespace BranchPrediction.Dashboard

open Cpp Json

/-- A value of the script, which may be undefined. -/
abbrev JsValue := Option Value

/-- What is caught: a file that is not there or not JSON, or the use of a property
of what has none. -/
inductive JsError where
  | notLoaded
  | typeError (property : String)
deriving DecidableEq

/-! ## Numbers -/

/-- A number of JSON as a `double`. -/
def toDouble (q : ℚ) : ℚ :=
  if q < 0 then -binary64 (-q) else binary64 q

/-- `response.json()`, of a text. -/
def json (text : List Char) : Option Value :=
  (parse text).map (Value.mapNum toDouble)

/-- A value as a number, and nothing where it is `NaN`. -/
def number : JsValue → Option ℚ
  | some (.num q) => some q
  | _ => none

/-- `Math.max`. -/
def mathMax : Option ℚ → Option ℚ → Option ℚ
  | some x, some y => some (max x y)
  | _, _ => none

/-- `x > y`, which is false of a `NaN`. -/
def greater : Option ℚ → Option ℚ → Bool
  | some x, some y => x > y
  | _, _ => false

/-- `toFixed`, of a number of ordinary size.  Of two texts equally near it is the
one of the greater number. -/
def toFixed (d : ℕ) : Option ℚ → List Char
  | none => "NaN".toList
  | some x =>
      if x < 0 then '-' :: decimal (round (-x * 10 ^ d)).toNat d
      else decimal (round (x * 10 ^ d)).toNat d

/-! ## The page -/

/-- The data of a dataset: a list the script made, or a value of a document. -/
inductive Data where
  | list (values : List JsValue)
  | value (v : JsValue)

/-- What a chart draws in one style. -/
structure Dataset where
  label : Option String
  data : Data
  backgroundColor : List String

/-- A chart, as the script configures it. -/
structure Chart where
  type : String
  labels : List JsValue
  datasets : List Dataset
  indexAxis : Option String

/-- A row of the list of branches. -/
structure Row where
  pc : JsValue
  badge : String
  code : JsValue
  miss : JsValue

/-- The elements of `index.html` that have an identifier. -/
def elements : List String :=
  ["selector", "total", "best", "winner", "mispred", "warmup", "barChart", "branch-list",
    "missChart"]

/-- The page, the charts the script holds, the number of charts that live on each
canvas, and what was written to the console. -/
@[ext]
structure Page where
  innerText : String → JsValue
  branchList : List Row
  charts : String → Option Chart
  live : String → ℕ
  errors : List JsError

/-- The page as `index.html` has it. -/
def index : Page where
  innerText id :=
    match id with
    | "total" => some (.str "0")
    | "best" => some (.str "0%")
    | "winner" => some (.str "---")
    | "mispred" => some (.str "0")
    | "warmup" => some (.str "0")
    | _ => none
  branchList := []
  charts _ := none
  live _ := 0
  errors := []

namespace Page

def setText (id : String) (v : JsValue) (page : Page) : Page :=
  { page with innerText := Function.update page.innerText id v }

def setRows (rows : List Row) (page : Page) : Page :=
  { page with branchList := rows }

/-- `charts[id].destroy()`. -/
def destroy (id : String) (page : Page) : Page :=
  { page with live := Function.update page.live id (page.live id - 1) }

/-- `charts[id] = new Chart(...)`. -/
def draw (id : String) (chart : Chart) (page : Page) : Page :=
  { page with
    charts := Function.update page.charts id (some chart)
    live := Function.update page.live id (page.live id + 1) }

/-- `console.error`. -/
def log (e : JsError) (page : Page) : Page :=
  { page with errors := page.errors ++ [e] }

end Page

/-! ## The script -/

/-- A computation of the script, which keeps what it did to the page when it throws. -/
abbrev Script := ExceptT JsError (StateM Page)

/-- A property of `document.getElementById(id)`, which is null without the element. -/
def element (id property : String) : Script Unit :=
  if id ∈ elements then pure () else throw (.typeError property)

/-- `v.property`. -/
def prop (v : JsValue) (property : String) : Script JsValue :=
  match v with
  | none | some .null => throw (.typeError property)
  | some v => pure (v.get? property)

/-- The items that `v.map` goes over. -/
def items (v : JsValue) : Script (List JsValue) :=
  match v with
  | some (.arr items) => pure (items.map some)
  | _ => throw (.typeError "map")

def setText (id : String) (v : JsValue) : Script Unit := do
  element id "innerText"
  modify (Page.setText id v)

def updateChart (id type : String) (labels : List JsValue) (datasets : List Dataset)
    (indexAxis : Option String) : Script Unit := do
  let page ← get
  if (page.charts id).isSome then modify (Page.destroy id)
  element id "getContext"
  modify (Page.draw id ⟨type, labels, datasets, indexAxis⟩)

/-- The colour of a bar of the comparison. -/
def barColor (v : JsValue) : String :=
  if greater (number v) (some 80) then "#fbc02d"
  else if greater (number v) (some 70) then "#f57c00"
  else "#e53935"

/-- The colour of a bar of the mispredictions. -/
def missColor (miss : JsValue) : String :=
  if greater (number miss) (some 15) then "#f57c00" else "#7cb342"

/-- The badge of a branch. -/
def badge (miss : JsValue) : String :=
  if greater (some 5) (number miss) then "loop" else "cond"

/-- `v || text`. -/
def orElse (v : JsValue) (text : String) : JsValue :=
  match v with
  | none | some .null | some (.bool false) | some (.str "") => some (.str text)
  | some (.num q) => some (if q = 0 then .str text else .num q)
  | v => v

def row (b : JsValue) : Script Row := do
  let pc ← prop b "pc"
  let miss ← prop b "miss"
  let code ← prop b "code"
  return ⟨pc, badge miss, orElse code "if (condition)", miss⟩

def strings (l : List String) : List JsValue :=
  l.map fun s => some (.str s)

def render (h t : JsValue) : Script Unit := do
  -- 1. the cards
  setText "total" (← prop (← prop h "summary") "total")
  let hBest ← prop (← prop h "summary") "best_accuracy"
  let tBest ← prop (← prop t "summary") "best_accuracy"
  setText "best"
    (some (.str (.ofList (toFixed 1 (mathMax (number hBest) (number tBest))) ++ "%")))
  setText "winner"
    (some (.str (if greater (number tBest) (number hBest) then "TAGE wins" else "Hybrid wins")))
  setText "mispred" (← prop (← prop h "summary") "mispred")
  setText "warmup" (← prop (← prop h "summary") "warmup_gain")
  -- 2. the comparison
  let tage ← prop (← prop t "predictors") "TAGE"
  let hybrid ← prop (← prop h "predictors") "Hybrid"
  let twoBit ← prop (← prop h "predictors") "2-bit"
  let oneBit ← prop (← prop h "predictors") "1-bit"
  let predValues := [tage, hybrid, twoBit, oneBit]
  updateChart "barChart" "bar" (strings ["TAGE 👑", "Hybrid", "2-bit", "1-bit"])
    [⟨none, .list predValues, predValues.map barColor⟩] (some "y")
  -- 3. the list of branches
  element "branch-list" "innerHTML"
  let rows ← (← items (← prop h "branches")).mapM row
  modify (Page.setRows rows)
  -- 4. the mispredictions
  let pcs ← (← items (← prop h "branches")).mapM fun b => prop b "pc"
  let misses ← (← items (← prop h "branches")).mapM fun b => prop b "miss"
  updateChart "missChart" "bar" pcs [⟨none, .list misses, misses.map missColor⟩] none
  -- 5. accuracy against history length
  updateChart "ghrChart" "line" (strings ["4 bits", "8 bits", "16 bits", "32 bits"])
    [⟨none, .value (← prop h "ghr_vs_accuracy"), []⟩] none
  -- 6. aliasing
  let t1 ← prop (← prop h "aliasing") "T1"
  let t2 ← prop (← prop h "aliasing") "T2"
  updateChart "aliasChart" "bar" (strings ["TC1", "TC2", "TC3", "TC4", "TC5", "TC6"])
    [⟨some "T1", .value t1, ["#9575cd"]⟩, ⟨some "T2", .value t2, ["#4db6ac"]⟩] none

/-! ## What it does with the documents of the tools -/

namespace Page

/-- `updateChart` on a canvas that there is. -/
def redraw (id : String) (chart : Chart) (page : Page) : Page :=
  (if (page.charts id).isSome then page.destroy id else page).draw id chart

end Page

namespace Page

variable (id : String) (chart : Chart) (page : Page)

@[simp] theorem charts_redraw :
    (page.redraw id chart).charts = Function.update page.charts id (some chart) := by
  unfold redraw
  split <;> rfl

@[simp] theorem innerText_redraw : (page.redraw id chart).innerText = page.innerText := by
  unfold redraw
  split <;> rfl

@[simp] theorem branchList_redraw : (page.redraw id chart).branchList = page.branchList := by
  unfold redraw
  split <;> rfl

@[simp] theorem errors_redraw : (page.redraw id chart).errors = page.errors := by
  unfold redraw
  split <;> rfl

end Page

/-- A computation goes on after one that did not throw. -/
theorem bind_ok {α β : Type} {x : Script α} {f : α → Script β} {page page' : Page} {v : α}
    (h : x page = (.ok v, page')) : (x >>= f) page = f v page' := by
  change ExceptT.bindCont f (x page).1 (x page).2 = _
  rw [h]
  rfl

/-- And does not after one that did. -/
theorem bind_error {α β : Type} {x : Script α} {f : α → Script β} {page page' : Page}
    {e : JsError} (h : x page = (.error e, page')) : (x >>= f) page = (.error e, page') := by
  change ExceptT.bindCont f (x page).1 (x page).2 = _
  rw [h]
  rfl

theorem element_of_mem {id : String} (hid : id ∈ elements) (property : String) (page : Page) :
    element id property page = (.ok (), page) := by
  rw [element, if_pos hid]
  rfl

theorem element_of_not_mem {id : String} (hid : id ∉ elements) (property : String) (page : Page) :
    element id property page = (.error (.typeError property), page) := by
  rw [element, if_neg hid]
  rfl

theorem setText_eq {id : String} (hid : id ∈ elements) (v : JsValue) (page : Page) :
    setText id v page = (.ok (), page.setText id v) :=
  bind_ok (element_of_mem hid _ page)

/-- On a canvas that there is, the chart before is destroyed. -/
theorem updateChart_of_mem {id : String} (hid : id ∈ elements) (type : String)
    (labels : List JsValue) (datasets : List Dataset) (indexAxis : Option String) (page : Page) :
    updateChart id type labels datasets indexAxis page =
      (.ok (), page.redraw id ⟨type, labels, datasets, indexAxis⟩) := by
  have hget : (get : Script Page) page = (.ok page, page) := rfl
  refine (bind_ok hget).trans ?_
  unfold Page.redraw
  split
  · exact bind_ok (element_of_mem hid _ _)
  · exact bind_ok (element_of_mem hid _ _)

/-- On one that there is not, nothing is drawn. -/
theorem updateChart_of_not_mem {id : String} (hid : id ∉ elements) (type : String)
    (labels : List JsValue) (datasets : List Dataset) (indexAxis : Option String) {page : Page}
    (hpage : page.charts id = none) :
    updateChart id type labels datasets indexAxis page =
      (.error (.typeError "getContext"), page) := by
  have hget : (get : Script Page) page = (.ok page, page) := rfl
  refine (bind_ok hget).trans ?_
  rw [hpage]
  exact bind_error (element_of_not_mem hid _ _)

/-! ### The documents -/

/-- The row of a branch. -/
def rowOf (it : ADDRINT × Int32) : Row where
  pc := some (.str (pcString it.1))
  badge := badge (some (.num it.2.toInt))
  code := some (.str "if (condition)")
  miss := some (.num it.2.toInt)

section

variable (num : Double → ℚ) (a : MyBranch.State) (b : MyTage.State)

/-- The accuracies in the order they are charted. -/
def charted : List ℚ :=
  [num (accuracy b.tagePred b.tageCorrect), num (accuracy a.predH a.correctH),
    num (accuracy a.pred2 a.correct2), num (accuracy a.predictions a.correct)]

/-- The same, as values of the script. -/
def predValues : List JsValue :=
  (charted num a b).map fun q => some (.num q)

/-- The chart of the accuracies. -/
def barChart : Chart where
  type := "bar"
  labels := strings ["TAGE 👑", "Hybrid", "2-bit", "1-bit"]
  datasets := [⟨none, .list (predValues num a b), (predValues num a b).map barColor⟩]
  indexAxis := some "y"

/-- The chart of the mispredictions. -/
def missChart : Chart where
  type := "bar"
  labels := a.mispredBranch.toList.map fun it => some (.str (pcString it.1))
  datasets :=
    let misses : List JsValue := a.mispredBranch.toList.map fun it => some (.num it.2.toInt)
    [⟨none, .list misses, misses.map missColor⟩]
  indexAxis := none

/-- The text of the card of the best accuracy. -/
def bestText : String :=
  .ofList (toFixed 1 (some (max (num (accuracy a.predH a.correctH))
    (num (accuracy b.tagePred b.tageCorrect))))) ++ "%"

/-- The text of the card of the winner. -/
def winnerText : String :=
  if greater (some (num (accuracy b.tagePred b.tageCorrect)))
    (some (num (accuracy a.predH a.correctH))) then "TAGE wins" else "Hybrid wins"

/-- The page with the documents written by the two tools. -/
def Page.display (page : Page) : Page :=
  page |>.setText "total" (some (.num a.total))
    |>.setText "best" (some (.str (bestText num a b)))
    |>.setText "winner" (some (.str (winnerText num a b)))
    |>.setText "mispred" (some (.num (a.predH - a.correctH : ℕ)))
    |>.setText "warmup" none
    |>.redraw "barChart" (barChart num a b)
    |>.setRows (a.mispredBranch.toList.map rowOf)
    |>.redraw "missChart" (missChart a)

end

theorem row_branch (it : ADDRINT × Int32) (page : Page) :
    row (some (branchJson it)) page = (.ok (rowOf it), page) :=
  rfl

theorem mapM_branches {β : Type} {f : JsValue → Script β} {g : ADDRINT × Int32 → β}
    (hf : ∀ it page, f (some (branchJson it)) page = (.ok (g it), page))
    (entries : List (ADDRINT × Int32)) (page : Page) :
    ((entries.map branchJson).map some).mapM f page = (.ok (entries.map g), page) := by
  induction entries with
  | nil => rfl
  | cons it entries ih =>
      rw [List.map_cons, List.map_cons, List.mapM_cons]
      exact (bind_ok (hf it page)).trans (bind_ok ih)

/-- **`render` of the documents of the tools.**  Everything is drawn for which
there is a canvas, and then the script throws at the first one that is missing. -/
theorem render_documents (num : Double → ℚ) (a : MyBranch.State) (b : MyTage.State) {page : Page}
    (hpage : page.charts "ghrChart" = none) :
    render (some ((MyBranch.document a).toJson num)) (some ((MyTage.document b).toJson num)) page =
      (.error (.typeError "getContext"), page.display num a b) := by
  have hpc : ∀ it page, prop (some (branchJson it)) "pc" page =
      (.ok (some (.str (pcString it.1))), page) := fun _ _ => rfl
  have hmiss : ∀ it page, prop (some (branchJson it)) "miss" page =
      (.ok (some (.num it.2.toInt)), page) := fun _ _ => rfl
  unfold render
  -- the cards
  refine (bind_ok rfl).trans ((bind_ok rfl).trans ?_)
  refine (bind_ok (setText_eq (by decide) _ _)).trans ?_
  refine (bind_ok rfl).trans ((bind_ok rfl).trans ?_)
  refine (bind_ok rfl).trans ((bind_ok rfl).trans ?_)
  refine (bind_ok (setText_eq (by decide) _ _)).trans ?_
  refine (bind_ok (setText_eq (by decide) _ _)).trans ?_
  refine (bind_ok rfl).trans ((bind_ok rfl).trans ?_)
  refine (bind_ok (setText_eq (by decide) _ _)).trans ?_
  refine (bind_ok rfl).trans ((bind_ok rfl).trans ?_)
  refine (bind_ok (setText_eq (by decide) _ _)).trans ?_
  -- the comparison
  refine (bind_ok rfl).trans ((bind_ok rfl).trans ?_)
  refine (bind_ok rfl).trans ((bind_ok rfl).trans ?_)
  refine (bind_ok rfl).trans ((bind_ok rfl).trans ?_)
  refine (bind_ok rfl).trans ((bind_ok rfl).trans ?_)
  refine (bind_ok (updateChart_of_mem (by decide) _ _ _ _ _)).trans ?_
  -- the branches
  refine (bind_ok (element_of_mem (by decide) _ _)).trans ?_
  refine (bind_ok rfl).trans ((bind_ok rfl).trans ?_)
  refine (bind_ok (mapM_branches row_branch _ _)).trans ?_
  refine (bind_ok rfl).trans ?_
  refine (bind_ok rfl).trans ((bind_ok rfl).trans ?_)
  refine (bind_ok (mapM_branches hpc _ _)).trans ?_
  refine (bind_ok rfl).trans ((bind_ok rfl).trans ?_)
  refine (bind_ok (mapM_branches hmiss _ _)).trans ?_
  refine (bind_ok (updateChart_of_mem (by decide) _ _ _ _ _)).trans ?_
  -- the missing canvas
  refine (bind_ok rfl).trans ?_
  refine (bind_error (updateChart_of_not_mem (by decide) _ _ _ _ ?_)).trans ?_
  · simp [Page.setRows, Page.setText, hpage]
  · rfl

/-! ### The loaded page -/

/-- A bar of a chart. -/
structure Bar where
  label : JsValue
  value : JsValue
  color : String

/-- The bars of a chart with one dataset, made of a list. -/
def Chart.bars (chart : Chart) : List Bar :=
  match chart.datasets with
  | [⟨_, .list values, colors⟩] =>
      (chart.labels.zip (values.zip colors)).map fun bar => ⟨bar.1, bar.2.1, bar.2.2⟩
  | _ => []

/-- The bars of the comparison. -/
def Page.bars (page : Page) : List Bar :=
  (page.charts "barChart").elim [] Chart.bars

/-- The page once the documents of the two tools are rendered. -/
def loaded (num : Double → ℚ) (a : MyBranch.State) (b : MyTage.State) : Page :=
  (render (some ((MyBranch.document a).toJson num)) (some ((MyTage.document b).toJson num))
    index).2

section

variable (num : Double → ℚ) (a : MyBranch.State) (b : MyTage.State)

theorem loaded_eq : loaded num a b = index.display num a b :=
  congrArg Prod.snd (render_documents num a b rfl)

@[simp] theorem winner_loaded :
    (loaded num a b).innerText "winner" = some (.str (winnerText num a b)) := by
  rw [loaded_eq]
  simp [Page.display, Page.setRows, Page.setText]

@[simp] theorem best_loaded :
    (loaded num a b).innerText "best" = some (.str (bestText num a b)) := by
  rw [loaded_eq]
  simp [Page.display, Page.setRows, Page.setText]

/-- The bars are those of the predictors the documents list. -/
theorem bars_loaded : (loaded num a b).bars =
    ((["TAGE 👑", "Hybrid", "2-bit", "1-bit"] : List String).zip (charted num a b)).map
      fun bar => ⟨some (.str bar.1), some (.num bar.2), barColor (some (.num bar.2))⟩ := by
  rw [loaded_eq]
  simp [Page.display, Page.setRows, Page.setText, Page.bars]
  rfl

end

end BranchPrediction.Dashboard
