import BranchPrediction.Dashboard.Script
import BranchPrediction.Requests

/-!
# The page over a session

`loadData` asks for the two files of a test case and renders them when both have
arrived.  Nothing keeps two calls of it apart, so the answers to several
selections arrive in any order.

The page is compared with one that only remembers which request was drawn last:
whatever the order, the page is the freshly loaded one with the documents of that
request, and nothing of any other is left on it (`Shows`).
-/

namespace BranchPrediction.Dashboard

open Cpp Json Requests

/-! ## Drawing over what is there -/

namespace Page

/-- The elements whose text is written, and the canvases that are drawn on. -/
def cards : List String := ["total", "best", "winner", "mispred", "warmup"]

def canvases : List String := ["barChart", "missChart"]

/-- A page on which nothing else was changed, and one chart lives on each canvas
that has one. -/
structure Tidy (page : Page) : Prop where
  text : ∀ id ∉ cards, page.innerText id = index.innerText id
  charts : ∀ id ∉ canvases, page.charts id = none
  live : ∀ id, page.live id = if (page.charts id).isSome then 1 else 0

/-- Reporting changes nothing that is displayed. -/
theorem log_eq {page page' : Page} (h : page = { page' with errors := page.errors })
    (e : JsError) : page.log e = { page' with errors := (page.log e).errors } := by
  rw [Page.ext_iff] at h ⊢
  exact ⟨h.1, h.2.1, h.2.2.1, h.2.2.2.1, rfl⟩

theorem tidy_index : Tidy index :=
  ⟨fun _ _ => rfl, fun _ _ => rfl, fun _ => rfl⟩

section

variable {page : Page} (h : page.Tidy)
include h

theorem Tidy.setText {id : String} (hid : id ∈ cards) (v : JsValue) : (page.setText id v).Tidy where
  text id' hid' := by
    have hne : id' ≠ id := fun heq => hid' (heq ▸ hid)
    exact (Function.update_of_ne hne _ _).trans (h.text id' hid')
  charts := h.charts
  live := h.live

theorem Tidy.setRows (rows : List Row) : (page.setRows rows).Tidy :=
  ⟨h.text, h.charts, h.live⟩

theorem Tidy.log (e : JsError) : (page.log e).Tidy :=
  ⟨h.text, h.charts, h.live⟩

/-- The chart that is drawn takes the place of the one that is destroyed. -/
theorem Tidy.live_redraw (id : String) (chart : Chart) :
    (page.redraw id chart).live = Function.update page.live id 1 := by
  have hlive := h.live id
  unfold redraw
  split
  · next hsome =>
      rw [if_pos hsome] at hlive
      simp [draw, destroy, hlive]
  · next hnone =>
      rw [if_neg hnone] at hlive
      simp [draw, hlive]

theorem Tidy.redraw {id : String} (hid : id ∈ canvases) (chart : Chart) :
    (page.redraw id chart).Tidy where
  text id' hid' := by
    rw [innerText_redraw]
    exact h.text id' hid'
  charts id' hid' := by
    have hne : id' ≠ id := fun heq => hid' (heq ▸ hid)
    rw [charts_redraw, Function.update_of_ne hne]
    exact h.charts id' hid'
  live id' := by
    rw [h.live_redraw, charts_redraw]
    by_cases heq : id' = id
    · rw [heq, Function.update_self, Function.update_self]
      rfl
    · rw [Function.update_of_ne heq, Function.update_of_ne heq]
      exact h.live id'

variable (num : Double → ℚ) (a : MyBranch.State) (b : MyTage.State)

theorem Tidy.display : (page.display num a b).Tidy :=
  ((((((((h.setText (by decide) _).setText (by decide) _).setText (by decide) _).setText
    (by decide) _).setText (by decide) _).redraw (by decide) _).setRows _).redraw (by decide) _)

/-- **Nothing shines through.**  What is displayed does not depend on what was
displayed before. -/
theorem Tidy.display_eq :
    page.display num a b = { index.display num a b with errors := page.errors } := by
  have hcharts : (page.display num a b).charts = (index.display num a b).charts := by
    funext id
    by_cases hid : id ∈ canvases
    · simp only [canvases, List.mem_cons, List.not_mem_nil, or_false] at hid
      rcases hid with rfl | rfl <;> simp [Page.display, Page.setRows]
    · rw [(h.display num a b).charts id hid, (tidy_index.display num a b).charts id hid]
  apply Page.ext
  · funext id
    by_cases hid : id ∈ cards
    · simp only [cards, List.mem_cons, List.not_mem_nil, or_false] at hid
      rcases hid with rfl | rfl | rfl | rfl | rfl <;>
        simp [Page.display, Page.setRows, Page.setText]
    · rw [(h.display num a b).text id hid]
      exact ((tidy_index.display num a b).text id hid).symm
  · simp [Page.display, Page.setRows]
  · exact hcharts
  · funext id
    rw [(h.display num a b).live id, hcharts]
    exact ((tidy_index.display num a b).live id).symm
  · simp [Page.display, Page.setRows, Page.setText]

end

end Page

/-! ## The files -/

/-- What the script has of an accuracy that was printed. -/
def fetched (x : Double) : ℚ :=
  toDouble (printed x)

theorem toDouble_of_nonneg {q : ℚ} (hq : 0 ≤ q) : toDouble q = binary64 q :=
  if_neg (not_lt.mpr hq)

theorem toDouble_natCast {n : ℕ} (hn : n < 2 ^ 53) : toDouble n = n := by
  rw [toDouble_of_nonneg (Nat.cast_nonneg n), binary64_natCast hn]

theorem fetched_eq {x : Double} (hx : 0 ≤ exact x) : fetched x = shown (exact x) :=
  toDouble_of_nonneg (rounds_six.nonneg _ hx)

/-- A function of the numbers that leaves the counts alone. -/
theorem mapNum_toJson {f : ℚ → ℚ} {num : Double → ℚ} {d : Document} (htotal : f d.total = d.total)
    (hmispred : f d.mispred = d.mispred)
    (hmiss : ∀ entries ∈ d.branches, ∀ it ∈ entries, f it.2.toInt = it.2.toInt) :
    (d.toJson num).mapNum f = d.toJson fun x => f (num x) := by
  have hbranches : ∀ entries ∈ d.branches,
      (entries.map branchJson).map (Value.mapNum f) = entries.map branchJson := by
    intro entries hentries
    rw [List.map_map]
    apply List.map_congr_left
    intro it hit
    simp [branchJson, hmiss entries hentries it hit]
  cases hd : d.branches with
  | none => simp [Document.toJson, Document.summaryJson, htotal, hmispred, hd]
  | some entries =>
      have := hbranches entries hd
      simp [Document.toJson, Document.summaryJson, htotal, hmispred, hd, this]

section

variable (range : Range) (es : List Event) (hes : es.length < 2 ^ 31)
include hes

theorem counts_lt : (MyBranch.run range es {}).total < 2 ^ 53 ∧
    (MyBranch.run range es {}).predH < 2 ^ 53 ∧ (MyTage.run range es {}).total < 2 ^ 53 ∧
    (MyTage.run range es {}).tagePred < 2 ^ 53 := by
  obtain ⟨htotal, hpred, -, -⟩ := MyTage.counters_run range es
  obtain ⟨-, -, hH⟩ := MyBranch.predictions_run range es
  have hagree := (agrees_run range es).total
  have hle := range.length_path_le es
  omega

/-- The file of `MyBranch`, as the script has it. -/
theorem json_hybrid : json (MyBranch.fini showAccuracy (MyBranch.run range es {})) =
    some ((MyBranch.document (MyBranch.run range es {})).toJson fetched) := by
  obtain ⟨htotal, hpred, -, -⟩ := counts_lt range es hes
  rw [json, parse_hybrid_file hes, Option.map_some, mapNum_toJson]
  · rfl
  · exact toDouble_natCast htotal
  · exact toDouble_natCast (by change _ - _ < _; omega)
  · rintro entries ⟨⟩ it hit
    have hpos := MyBranch.toInt_pos_of_mem hes hit
    have hlt := it.2.toInt_lt
    obtain ⟨n, hn⟩ := Int.eq_ofNat_of_zero_le hpos.le
    rw [hn]
    exact toDouble_natCast (by omega)

/-- The file of `MyTage`, as the script has it. -/
theorem json_tage : json (MyTage.fini showAccuracy (MyTage.run range es {})) =
    some ((MyTage.document (MyTage.run range es {})).toJson fetched) := by
  obtain ⟨-, -, htotal, hpred⟩ := counts_lt range es hes
  rw [json, parse_tage_file, Option.map_some, mapNum_toJson]
  · rfl
  · exact toDouble_natCast htotal
  · exact toDouble_natCast (by change _ - _ < _; omega)
  · rintro entries ⟨⟩

end

/-! ## Sessions -/

/-- What `loadData` does when its files have arrived, and when one of them does not. -/
def loadData : Handler String Value Page where
  draw _ h t page :=
    match render (some h) (some t) page with
    | (.ok _, page) => page
    | (.error e, page) => page.log e
  fail page := page.log .notLoaded

/-- The runs of the tools whose files were written under each name. -/
structure Results where
  hybrid : String → Set (Range × List Event)
  tage : String → Set (Range × List Event)
  short_hybrid : ∀ base, ∀ r ∈ hybrid base, r.2.length < 2 ^ 31
  short_tage : ∀ base, ∀ r ∈ tage base, r.2.length < 2 ^ 31

namespace Results

variable (results : Results)

/-- What a request for a file of a test case is answered with: what one of its
runs wrote to `results/base.json` or to `results/base_tage.json`. -/
def Has (base : String) : File → Value → Prop
  | .first, v => ∃ r ∈ results.hybrid base,
      json (MyBranch.fini showAccuracy (MyBranch.run r.1 r.2 {})) = some v
  | .second, v => ∃ r ∈ results.tage base,
      json (MyTage.fini showAccuracy (MyTage.run r.1 r.2 {})) = some v

/-- The freshly loaded page, or that page with the documents of one test case. -/
def Shows (page : Page) : Option (String × Value × Value) → Prop
  | none => page = { index with errors := page.errors }
  | some (base, h, t) => ∃ r ∈ results.hybrid base, ∃ r' ∈ results.tage base,
      json (MyBranch.fini showAccuracy (MyBranch.run r.1 r.2 {})) = some h ∧
      json (MyTage.fini showAccuracy (MyTage.run r'.1 r'.2 {})) = some t ∧
      page = { index.display fetched (MyBranch.run r.1 r.2 {}) (MyTage.run r'.1 r'.2 {}) with
        errors := page.errors }

variable {results}

/-- A request whose files have arrived: everything is drawn, and an error reported. -/
theorem draw_eq {page : Page} (hpage : page.Tidy) {base : String} {h t : Value}
    (hh : results.Has base .first h) (ht : results.Has base .second t) :
    ∃ r ∈ results.hybrid base, ∃ r' ∈ results.tage base,
      json (MyBranch.fini showAccuracy (MyBranch.run r.1 r.2 {})) = some h ∧
      json (MyTage.fini showAccuracy (MyTage.run r'.1 r'.2 {})) = some t ∧
      loadData.draw base h t page =
        (page.display fetched (MyBranch.run r.1 r.2 {}) (MyTage.run r'.1 r'.2 {})).log
          (.typeError "getContext") := by
  obtain ⟨r, hr, hh⟩ := hh
  obtain ⟨r', hr', ht⟩ := ht
  refine ⟨r, hr, r', hr', hh, ht, ?_⟩
  rw [json_hybrid r.1 r.2 (results.short_hybrid base r hr), Option.some_inj] at hh
  rw [json_tage r'.1 r'.2 (results.short_tage base r' hr'), Option.some_inj] at ht
  have hrender := render_documents fetched (MyBranch.run r.1 r.2 {}) (MyTage.run r'.1 r'.2 {})
    (hpage.charts "ghrChart" (by decide))
  rw [hh, ht] at hrender
  simp only [loadData, hrender]

/-- The relation between the page and what was drawn last. -/
structure Relates (results : Results) (page : Page) (shown : Option (String × Value × Value)) :
    Prop where
  tidy : page.Tidy
  shows : results.Shows page shown

theorem relates_draw (base : String) (h t : Value) (page : Page)
    (shown : Option (String × Value × Value)) (hh : results.Has base .first h)
    (ht : results.Has base .second t) (hpage : results.Relates page shown) :
    results.Relates (loadData.draw base h t page) (Loader.latest.draw base h t shown) := by
  obtain ⟨r, hr, r', hr', hh', ht', hdraw⟩ := draw_eq hpage.tidy hh ht
  rw [hdraw]
  refine ⟨(hpage.tidy.display _ _ _).log _, r, hr, r', hr', hh', ht', Page.log_eq ?_ _⟩
  rw [hpage.tidy.display_eq]

theorem relates_fail (page : Page) (shown : Option (String × Value × Value))
    (hpage : results.Relates page shown) :
    results.Relates (loadData.fail page) (Loader.latest.fail shown) := by
  refine ⟨hpage.tidy.log _, ?_⟩
  have hshows := hpage.shows
  cases shown with
  | none => exact Page.log_eq hshows _
  | some drawn =>
      obtain ⟨r, hr, r', hr', hh, ht, heq⟩ := hshows
      exact ⟨r, hr, r', hr', hh, ht, Page.log_eq heq _⟩

end Results

/-- The relation between the page and the number of requests that are settled. -/
structure Reports (page : Page) (n : ℕ) : Prop where
  tidy : page.Tidy
  errors : page.errors.length = n

theorem reports_draw {results : Results} (base : String) (h t : Value) (page : Page) (n : ℕ)
    (hh : results.Has base .first h) (ht : results.Has base .second t) (hpage : Reports page n) :
    Reports (loadData.draw base h t page) (Loader.counter.draw base h t n) := by
  obtain ⟨r, -, r', -, -, -, hdraw⟩ := Results.draw_eq hpage.tidy hh ht
  rw [hdraw]
  refine ⟨(hpage.tidy.display _ _ _).log _, ?_⟩
  rw [hpage.tidy.display_eq]
  simp [Page.log, hpage.errors, Loader.counter]

theorem reports_fail (page : Page) (n : ℕ) (hpage : Reports page n) :
    Reports (loadData.fail page) (n + 1) :=
  ⟨hpage.tidy.log _, by simp [Page.log, hpage.errors, loadData]⟩

/-- The page over a session that starts with a selected test case. -/
def session (base : String) (acts : List (Action String Value)) : Loader String Value Page :=
  Loader.run loadData acts (.initial base index)

/-- The same session with nothing on the page but what was drawn last. -/
def drawn (base : String) (acts : List (Action String Value)) :
    Loader String Value (Option (String × Value × Value)) :=
  Loader.run Loader.latest acts (.initial base none)

section

variable {results : Results} {base : String} {acts : List (Action String Value)}

theorem allowed_initial {π : Type} (view : π) :
    ∀ load ∈ (Loader.initial base view).loads, load.Allowed results.Has := by
  intro load hload
  rw [List.mem_singleton.mp hload]
  exact ⟨nofun, nofun⟩

variable (hserved : Loader.Served loadData results.Has (.initial base index) acts)
include hserved

theorem relates_session : (session base acts).selected = (drawn base acts).selected ∧
    (session base acts).loads = (drawn base acts).loads ∧
    results.Relates (session base acts).view (drawn base acts).view :=
  Loader.simulation Results.relates_draw Results.relates_fail acts rfl rfl
    ⟨Page.tidy_index, rfl⟩ (allowed_initial _) hserved

/-- Every request ends in an error that is reported, also when it is drawn. -/
theorem length_errors : (session base acts).view.errors.length =
    (session base acts).loads.countP Load.isSettled := by
  have hcount := Loader.run_counter acts
    (show (Loader.initial base 0 : Loader String Value ℕ).view = _ from rfl)
  obtain ⟨-, hloads, hreports⟩ : _ ∧ (session base acts).loads =
      (Loader.run Loader.counter acts (.initial base 0)).loads ∧ Reports _ _ :=
    Loader.simulation reports_draw reports_fail acts rfl rfl ⟨Page.tidy_index, rfl⟩
      (allowed_initial _) hserved
  rw [hloads, ← hcount]
  exact hreports.errors

/-- **The page shows one test case.**  In every interleaving of selections and
answers, it is the freshly loaded page with the documents of the request drawn
last; one chart lives on each canvas drawn on; and every settled request left an
error on the console. -/
theorem page_shows_one_test_case :
    results.Shows (session base acts).view (drawn base acts).view ∧
      (∀ id, (session base acts).view.live id =
        if ((session base acts).view.charts id).isSome then 1 else 0) ∧
      (∀ id, ((session base acts).view.charts id).isSome → id ∈ Page.canvases) ∧
      (session base acts).view.errors.length =
        (session base acts).loads.countP Load.isSettled := by
  obtain ⟨-, -, htidy, hshows⟩ := relates_session hserved
  refine ⟨hshows, htidy.live, ?_, length_errors hserved⟩
  intro id hid
  by_contra hcanvas
  rw [htidy.charts id hcanvas] at hid
  cases hid

omit hserved

/-- The run behind the files of a test case. -/
def runOf (base : String) : Range × List Event :=
  (⟨1, 9⟩, [⟨4, 5, base = "test1"⟩])

theorem length_runOf (base : String) : (runOf base).2.length < 2 ^ 31 :=
  Nat.one_lt_two_pow (by decide)

/-- One run of each tool for every test case. -/
def oneRun : Results where
  hybrid base := {runOf base}
  tage base := {runOf base}
  short_hybrid := by
    rintro base r rfl
    exact length_runOf base
  short_tage := by
    rintro base r rfl
    exact length_runOf base

/-- Their files, as they are fetched. -/
def fileOf (base : String) : File → Value
  | .first => (MyBranch.document (MyBranch.run (runOf base).1 (runOf base).2 {})).toJson fetched
  | .second => (MyTage.document (MyTage.run (runOf base).1 (runOf base).2 {})).toJson fetched

theorem has_fileOf (base : String) (file : File) : oneRun.Has base file (fileOf base file) := by
  cases file with
  | first => exact ⟨_, rfl, json_hybrid _ _ (length_runOf base)⟩
  | second => exact ⟨_, rfl, json_tage _ _ (length_runOf base)⟩

/-- A file of a test case arrives. -/
def arrival (i : ℕ) (base : String) (file : File) : Action String Value :=
  .answer i file (some (fileOf base file))

theorem servedBy_arrival {loads : List (Load String Value)} {i : ℕ} (load : Load String Value)
    (hload : loads[i]? = some load) (file : File) :
    Loader.ServedBy oneRun.Has loads (arrival i load.key file) := by
  rintro load' hload' a ⟨⟩
  obtain rfl := Option.some.inj (hload.symm.trans hload')
  exact has_fileOf load.key file

/-- The second test case is selected between the files of the first one, which comes
last. -/
def overtaken : List (Action String Value) :=
  [arrival 0 "test1" .first, .change "test2", arrival 1 "test2" .second,
    arrival 1 "test2" .first, arrival 0 "test1" .second]

theorem served_overtaken :
    Loader.Served loadData oneRun.Has (.initial "test1" index) overtaken :=
  ⟨servedBy_arrival (.ask "test1") rfl _, trivial,
    servedBy_arrival (.ask "test2") rfl _,
    servedBy_arrival ⟨"test2", .pending, .fulfilled (fileOf "test2" .second)⟩ rfl _,
    servedBy_arrival ⟨"test1", .fulfilled (fileOf "test1" .first), .pending⟩ rfl _, trivial⟩

/-- The page shows the first one, and both left an error. -/
theorem page_shows_one_test_case_loaded :
    oneRun.Shows (session "test1" overtaken).view
        (some ("test1", fileOf "test1" .first, fileOf "test1" .second)) ∧
      (session "test1" overtaken).view.errors.length = 2 := by
  obtain ⟨hshows, -, -, herrors⟩ := page_shows_one_test_case served_overtaken
  exact ⟨hshows, herrors⟩

include hserved

/-- **Who waits sees what he selected.**  If a test case is only selected when no
request is under way, the page shows the selected one once its files are there. -/
theorem patient_sees_selected
    (hpatient : Loader.Patient loadData (.initial base index) acts) :
    ∃ older last, (session base acts).loads = older ++ [last] ∧
      (session base acts).selected = last.key ∧ (∀ load ∈ older, load.isSettled) ∧
      ∀ h t, last.all = .fulfilled (h, t) →
        results.Shows (session base acts).view (some ((session base acts).selected, h, t)) := by
  obtain ⟨hselected, hloads, -, hshows⟩ := relates_session hserved
  have hinitial : Loader.UpToDate (.initial base none : Loader String Value _) [] (.ask base) :=
    ⟨rfl, rfl, nofun, nofun⟩
  have hloads' : (.initial base index : Loader String Value Page).loads =
      (.initial base none : Loader String Value (Option (String × Value × Value))).loads := rfl
  obtain ⟨older, last, h⟩ := Loader.run_upToDate acts hinitial
    (Loader.patient_congr hloads' hpatient)
  refine ⟨older, last, hloads.trans h.loads, hselected.trans h.selected, h.settled, ?_⟩
  intro file file' hall
  rw [hselected, show (drawn base acts).selected = last.key from h.selected,
    ← h.shown file file' hall]
  exact hshows

omit hserved

/-- The second test case is selected when the first one is there. -/
def awaited : List (Action String Value) :=
  [arrival 0 "test1" .first, arrival 0 "test1" .second, .change "test2",
    arrival 1 "test2" .second, arrival 1 "test2" .first]

theorem served_awaited : Loader.Served loadData oneRun.Has (.initial "test1" index) awaited :=
  ⟨servedBy_arrival (.ask "test1") rfl _,
    servedBy_arrival ⟨"test1", .fulfilled (fileOf "test1" .first), .pending⟩ rfl _, trivial,
    servedBy_arrival (.ask "test2") rfl _,
    servedBy_arrival ⟨"test2", .pending, .fulfilled (fileOf "test2" .second)⟩ rfl _, trivial⟩

theorem patient_awaited : Loader.Patient loadData (.initial "test1" index) awaited := by
  refine ⟨nofun, nofun, ?_, nofun, nofun, trivial⟩
  intro _ load hload
  rw [List.mem_singleton.mp hload]
  rfl

theorem patient_sees_selected_loaded : oneRun.Shows (session "test1" awaited).view
    (some ("test2", fileOf "test2" .first, fileOf "test2" .second)) := by
  obtain ⟨older, last, hloads, -, -, hshows⟩ :=
    patient_sees_selected served_awaited patient_awaited
  have hlast : some last = some ⟨"test2", .fulfilled (fileOf "test2" .first),
      .fulfilled (fileOf "test2" .second)⟩ :=
    List.getLast?_concat.symm.trans (congrArg List.getLast? hloads).symm
  obtain rfl := Option.some.inj hlast
  exact hshows _ _ rfl

include hserved

/-- **Who does not wait may see anything he selected.**  Whatever request is under
way, the answers can still arrive so that it is the one left on the page. -/
theorem any_request_can_stay (hresults : ∀ base file, ∃ v, results.Has base file v) {i : ℕ}
    {load : Load String Value} (hload : (session base acts).loads[i]? = some load)
    (hpending : load.isSettled = false) :
    ∃ more, (∀ key, .change key ∉ more) ∧
      Loader.Served loadData results.Has (.initial base index) (acts ++ more) ∧
      (session base (acts ++ more)).selected = (session base acts).selected ∧
      (∀ load ∈ (session base (acts ++ more)).loads, load.isSettled) ∧
      ∃ h t, results.Shows (session base (acts ++ more)).view (some (load.key, h, t)) := by
  obtain ⟨hselected, hloads, -⟩ := relates_session hserved
  choose pick hpick using hresults
  have hfiles : ∀ (j : ℕ) (load : Load String Value), (drawn base acts).loads[j]? = some load →
      ∀ file, results.Has load.key file
        (pick ((drawn base acts).loads[j]?.elim "" Load.key) file) := by
    intro j load hj file
    rw [hj]
    exact hpick load.key file
  rw [hloads] at hload
  obtain ⟨more, hchange, hserved', hselected', hsettled, h, t, hview⟩ :=
    Loader.exists_overtaking (fun j => pick ((drawn base acts).loads[j]?.elim "" Load.key)) hfiles
      hload hpending
  have happend := Loader.served_append hserved (Loader.served_congr hloads.symm hserved')
  have hdrawn : drawn base (acts ++ more) = Loader.run Loader.latest more (drawn base acts) :=
    Loader.run_append ..
  obtain ⟨hselected'', hloads', -, hshows⟩ := relates_session happend
  refine ⟨more, hchange, happend, ?_, ?_, h, t, ?_⟩
  · rw [hselected'', hdrawn, hselected', hselected]
  · rw [hloads', hdrawn]
    exact hsettled
  · rw [← hview, ← hdrawn]
    exact hshows

omit hserved in
/-- The first test case is shown while the second one is selected. -/
theorem any_request_can_stay_changed : ∃ more, (∀ key, .change key ∉ more) ∧
    Loader.Served loadData oneRun.Has (.initial "test1" index) (.change "test2" :: more) ∧
    (session "test1" (.change "test2" :: more)).selected = "test2" ∧
    (∀ load ∈ (session "test1" (.change "test2" :: more)).loads, load.isSettled) ∧
    ∃ h t, oneRun.Shows (session "test1" (.change "test2" :: more)).view
      (some ("test1", h, t)) := by
  have hserved : Loader.Served loadData oneRun.Has (.initial "test1" index)
      [.change "test2"] := ⟨trivial, trivial⟩
  have hload : (session "test1" [.change "test2"]).loads[0]? = some (.ask "test1") := rfl
  exact any_request_can_stay hserved (fun base file => ⟨_, has_fileOf base file⟩) hload rfl

end

end BranchPrediction.Dashboard
